import SlabKernel.Slab.Destroy

/-!
# Buffers

`kmalloc` serves a request from the cache of its size class, the least power of two that is large
enough (`getPowerOfTwo_spec`). The first request of a class creates the cache, and `bufferInit`
takes the number of buffers and the order of a slab from that request: the slabs fit the class iff
`FitsClass` holds of it (`isBuffer_iff`). An allocation takes its slab header from the descriptor
cache of the class (`Kmem.Inv.alloc_buffer`); `kfree` finds the slab by the page of the buffer
(`Kmem.Inv.kfree`).
-/

namespace SlabKernel

open Function (update update_self update_of_ne update_eq_self)
open PtrList CachePool

/-! ## Sizes -/

theorem orderLoop_spec {x o : Nat} (fuel value : Nat) (hx : x ≤ value * 2 ^ fuel) :
    ∃ t, orderLoop x fuel value o = o + t ∧ x ≤ value * 2 ^ t ∧
      ∀ j < t, value * 2 ^ j < x := by
  induction fuel generalizing value o with
  | zero => exact ⟨0, rfl, hx, fun j hj => absurd hj (Nat.not_lt_zero _)⟩
  | succ fuel ih =>
    unfold orderLoop
    split
    · rename_i hlt
      obtain ⟨t, he, hle, hmin⟩ := @ih (o + 1) (value * 2)
        (by rw [Nat.mul_assoc, ← Nat.pow_succ']; exact hx)
      refine ⟨t + 1, by rw [he]; omega, by rw [Nat.pow_succ', ← Nat.mul_assoc]; exact hle, ?_⟩
      intro j hj
      cases j with
      | zero => rwa [Nat.pow_zero, Nat.mul_one]
      | succ j =>
        rw [Nat.pow_succ', ← Nat.mul_assoc]
        exact hmin j (Nat.lt_of_succ_lt_succ hj)
    · rename_i hle
      exact ⟨0, rfl, by omega, fun j hj => absurd hj (Nat.not_lt_zero _)⟩

/-- The class of a request is the least one that is large enough. -/
theorem getPowerOfTwo_spec {size : Nat} (h : minBuffSize ≤ size) (h' : size ≤ maxBuffSize) :
    getPowerOfTwo size < bufferNum ∧ size ≤ 2 ^ (minBuffOrder + getPowerOfTwo size) ∧
      ∀ j < minBuffOrder + getPowerOfTwo size, 2 ^ j < size := by
  have hmin : minBuffSize = 32 := rfl
  have hmax : maxBuffSize = 2 ^ 17 := rfl
  obtain ⟨t, he, hle, hlt⟩ := orderLoop_spec (x := size) (o := 0) 64 1 (by omega)
  simp only [Nat.one_mul, Nat.zero_add] at he hle hlt
  have ht : 5 ≤ t := by
    by_contra hc
    have : 2 ^ t ≤ 2 ^ 4 := Nat.pow_le_pow_right (by decide) (by omega)
    omega
  have ht' : t ≤ 17 := by
    by_contra hc
    have := hlt 17 (by omega)
    omega
  have hsub : getPowerOfTwo size = t - 5 := by
    unfold getPowerOfTwo
    rw [he]
  rw [hsub, show minBuffOrder + (t - 5) = t from Nat.add_sub_cancel' ht]
  exact ⟨by unfold bufferNum; omega, hle, hlt⟩

theorem getPowerOfTwo_pow {i : Nat} (hi : i < bufferNum) :
    getPowerOfTwo (2 ^ (minBuffOrder + i)) = i := by
  have : ∀ i < bufferNum, getPowerOfTwo (2 ^ (minBuffOrder + i)) = i := by decide
  exact this i hi

theorem getOrder_spec {size : Nat} (h : size ≤ maxBuffSize) :
    size ≤ 2 ^ CachePool.getOrder size * blockSize ∧
      (size ≤ blockSize → CachePool.getOrder size = 0) := by
  have hmax : maxBuffSize = 2 ^ 17 := rfl
  have hblock : blockSize = 4096 := rfl
  obtain ⟨t, he, hle, hlt⟩ := orderLoop_spec (x := size) 52 blockSize (by omega)
  have ho : CachePool.getOrder size = t := by
    unfold CachePool.getOrder
    rw [he, Nat.zero_add]
  rw [ho, Nat.mul_comm]
  refine ⟨hle, fun hs => ?_⟩
  by_contra hne
  have := hlt 0 (Nat.pos_of_ne_zero hne)
  omega

/-- The number of buffers of a slab that `bufferInit` takes from the first request. -/
def firstObjNum (size : Nat) : Nat := if size > blockSize then 1 else blockSize / size

/-- The slabs that the first request `size` of a class sets up have at most as many buffers as the
class has room for. -/
def FitsClass (size : Nat) : Prop := firstObjNum size ≤ numObjects (getPowerOfTwo size)

instance (size : Nat) : Decidable (FitsClass size) := inferInstanceAs (Decidable (_ ≤ _))

/-- What `bufferInit` makes of a cache. -/
def Cache.toBuffer (C : Cache) (size : Nat) : Cache :=
  { C with
    group := .SMALL_MEMORY_BUFFER
    type := 1
    objNum := firstObjNum size
    slabOrder := CachePool.getOrder size
    slabSize := slabBytes (CachePool.getOrder size) }

/-- A request is at most `2 ^ o` bytes iff the size of its class is. -/
theorem class_le {size : Nat} (h : minBuffSize ≤ size) (h' : size ≤ maxBuffSize) (o : Nat) :
    2 ^ (minBuffOrder + getPowerOfTwo size) ≤ 2 ^ o ↔ size ≤ 2 ^ o := by
  obtain ⟨-, hle, hmin⟩ := getPowerOfTwo_spec h h'
  constructor
  · exact hle.trans
  · intro hso
    apply Nat.pow_le_pow_right (by decide)
    by_contra hc
    exact absurd (hmin o (by omega)) (by omega)

/-- All requests of a class call for slabs of the same order. -/
theorem getOrder_class {size : Nat} (h : minBuffSize ≤ size) (h' : size ≤ maxBuffSize) :
    CachePool.getOrder size = CachePool.getOrder (2 ^ (minBuffOrder + getPowerOfTwo size)) := by
  obtain ⟨hlt, -, -⟩ := getPowerOfTwo_spec h h'
  have hblock : ∀ t, blockSize * 2 ^ t = 2 ^ (12 + t) := fun t => (Nat.pow_add 2 12 t).symm
  have hclass : 2 ^ (minBuffOrder + getPowerOfTwo size) ≤ blockSize * 2 ^ 52 := by
    rw [hblock]
    exact Nat.pow_le_pow_right (by decide) (by unfold minBuffOrder bufferNum at *; omega)
  obtain ⟨t, he, hle, hmin⟩ := orderLoop_spec (x := size) 52 blockSize
    (by unfold maxBuffSize blockSize at *; omega)
  obtain ⟨u, he', hle', hmin'⟩ := orderLoop_spec _ _ hclass
  unfold CachePool.getOrder
  rw [he, he']
  rw [hblock, class_le h h'] at hle'
  rw [hblock, ← class_le h h'] at hle
  rcases Nat.lt_trichotomy t u with htu | rfl | htu
  · have := hmin' t htu
    rw [hblock] at this
    omega
  · rfl
  · have := hmin u htu
    rw [hblock] at this
    omega

theorem numObjects_le_first {size : Nat} (h : minBuffSize ≤ size) (h' : size ≤ maxBuffSize) :
    numObjects (getPowerOfTwo size) ≤ firstObjNum size := by
  obtain ⟨-, hle, -⟩ := getPowerOfTwo_spec h h'
  have hmin : minBuffSize = 32 := rfl
  unfold numObjects firstObjNum
  by_cases hs : size > blockSize
  · rw [if_pos (by omega), if_pos hs]
  · have hc := (class_le h h' 12).2 (by unfold blockSize at hs; omega)
    rw [if_neg (by unfold blockSize; omega), if_neg hs]
    exact Nat.div_le_div_left hle (by omega)

theorem toBuffer_slabSize {size : Nat} (C : Cache) (h : size ≤ maxBuffSize) :
    (C.toBuffer size).slabSize = 2 ^ CachePool.getOrder size * blockSize := by
  obtain ⟨t, he, -, hmin⟩ := orderLoop_spec (x := size) (o := 0) 52 blockSize
    (by unfold maxBuffSize blockSize at *; omega)
  refine Cache.slabBytes_eq ?_
  unfold CachePool.getOrder
  rw [he]
  by_contra hlt
  have := hmin 18 (by omega)
  unfold maxBuffSize blockSize at *
  omega

/-- The first request lays the slabs of its class out as the class needs, or has too many
buffers. -/
theorem isBuffer_iff {C : Cache} {size : Nat} (h : minBuffSize ≤ size) (h' : size ≤ maxBuffSize)
    (hC : C.slotSize = 2 ^ (minBuffOrder + getPowerOfTwo size)) :
    (C.toBuffer size).IsBuffer (getPowerOfTwo size) ↔ FitsClass size := by
  refine ⟨fun hb => hb.objNum.le, fun hf => ?_⟩
  obtain ⟨ho, ho'⟩ := getOrder_spec h'
  refine ⟨rfl, hC, getOrder_class h h', toBuffer_slabSize C h', ?_,
    hf.antisymm (numObjects_le_first h h'), ?_⟩
  · by_cases hs : size > blockSize
    · exact .inr (if_pos hs)
    · exact .inl (ho' (by omega))
  · rw [toBuffer_slabSize C h']
    change firstObjNum size * C.slotSize ≤ 2 ^ CachePool.getOrder size * blockSize
    rw [hC]
    have hblock : blockSize = 2 ^ 12 := rfl
    by_cases hs : size > blockSize
    · have h1 : firstObjNum size = 1 := if_pos hs
      rw [h1, Nat.one_mul, hblock, ← Nat.pow_add]
      exact (class_le h h' _).2 (by rw [Nat.pow_add, ← hblock]; exact ho)
    · rw [ho' (by omega), Nat.pow_zero, Nat.one_mul]
      have hS := (class_le h h' 12).2 (by omega)
      have hn : numObjects (getPowerOfTwo size) =
          blockSize / 2 ^ (minBuffOrder + getPowerOfTwo size) := if_neg (by omega)
      unfold FitsClass at hf
      rw [hn] at hf
      exact (Nat.mul_le_mul_right _ hf).trans (Nat.div_mul_le_self _ _)

theorem firstObjNum_pos {size : Nat} (h : minBuffSize ≤ size) : 1 ≤ firstObjNum size := by
  have hmin : minBuffSize = 32 := rfl
  unfold firstObjNum
  split
  · exact Nat.le_refl 1
  · exact (Nat.one_le_div_iff (by omega)).2 (by omega)

theorem numObjects_le (i : Nat) : numObjects i ≤ blockSize := by
  unfold numObjects
  split
  · decide
  · exact Nat.div_le_self _ _

/-- The request of a power of two fits. -/
theorem fitsClass_pow {i : Nat} (hi : i < bufferNum) : FitsClass (2 ^ (minBuffOrder + i)) := by
  unfold FitsClass
  rw [getPowerOfTwo_pow hi]
  exact Nat.le_refl _

/-! ## Deallocation -/

variable {k k' : Kmem} {V V' : View} {extra : List (Nat × Nat)} {c d i m p s n : Nat}
  {l : List Nat} {fuel : Nat}

/-- `findSlab` finds the first slab of a list with the memory `b`. -/
theorem findSlab_eq {b q : Ptr} (h : Linked (fun s => (k.slab s).next) q l) (hl : l.length ≤ fuel) :
    Slab.findSlab k b fuel q = some (l.find? fun s => (k.slab s).mem = b) := by
  induction l generalizing q fuel with
  | nil =>
    obtain rfl : q = none := h
    cases fuel <;> rfl
  | cons a l ih =>
    obtain ⟨rfl, h⟩ := h
    cases fuel with
    | zero => exact absurd hl (Nat.not_succ_le_zero _)
    | succ fuel =>
      unfold Slab.findSlab
      rw [ih h (Nat.le_of_succ_le_succ hl)]
      by_cases hm : (k.slab a).mem = b
      · rw [if_pos hm, List.find?_cons_of_pos (by simp [hm])]
      · rw [if_neg hm, List.find?_cons_of_neg (by simp [hm])]

namespace Kmem.Inv

/-- A buffer lies in the first page of its slab, or is the only one. -/
theorem buffer_page (h : k.Inv V extra) (hc : c ∈ V.caches) (hb : (k.cache c).IsBuffer n)
    (hs : Slot k V c s i p) : (k.slab s).mem = some (p / blockSize * blockSize) := by
  have halign := h.aligned (block_mem hc hs.slab)
  obtain ⟨h1, h2, -⟩ := h.slot_inside hc hs
  have hpos := h.slotSize_pos hc
  have htype : (k.cache c).type ≠ 0 := by rw [hb.type]; decide
  obtain ⟨m, hm, hp⟩ := hs.addr
  unfold Kmem.block at halign h1 h2
  rw [if_neg htype, hm] at halign h1 h2
  simp only [Option.getD_some] at halign h1 h2
  obtain ⟨q, hq⟩ := halign
  rw [hm, Option.some.injEq]
  rcases hb.order with ho | ho
  · rw [ho, Nat.pow_zero, Nat.one_mul] at h2
    unfold blockSize at *
    omega
  · have hlt := hs.lt
    rw [ho] at hlt
    rw [show i = 0 by omega, Nat.zero_mul, Nat.add_zero] at hp
    unfold blockSize at *
    omega

/-- A block of a buffer cache has one slab. -/
theorem buffer_slab {c' s' n' : Nat} (h : k.Inv V extra) (hc : c ∈ V.caches)
    (hb : (k.cache c).IsBuffer n) (hs : s ∈ V.slabs c) (hc' : c' ∈ V.caches)
    (hb' : (k.cache c').IsBuffer n') (hs' : s' ∈ V.slabs c')
    (hm : (k.slab s).mem = (k.slab s').mem) : s = s' := by
  by_contra hne
  have h1 : (k.cache c).type ≠ 0 := by rw [hb.type]; decide
  have h2 : (k.cache c').type ≠ 0 := by rw [hb'.type]; decide
  have hfst : (k.block c s).1 = (k.block c' s').1 := by
    unfold Kmem.block
    rw [if_neg h1, if_neg h2, hm]
  have hp : 0 < 2 ^ (k.block c s).2 * blockSize := Nat.mul_pos (Nat.two_pow_pos _) (by decide)
  have hp' : 0 < 2 ^ (k.block c' s').2 * blockSize := Nat.mul_pos (Nat.two_pow_pos _) (by decide)
  have := h.buddy.apart (block_mem (k := k) hc hs) (block_mem hc' hs')
    fun he => hne (h.block_inj hc hs hc' hs' he).2
  omega

/-- `findBuffer` finds the slab of a live buffer. -/
theorem findBuffer_eq {g : SlabGroup} {j : Nat} (h : k.Inv V extra)
    (hbufs : ∀ i c, k.memoryBuffers i = some c → c ∈ V.caches)
    (hc : k.memoryBuffers i = some c) (hs : s ∈ V.lists c g) (hg : g ≠ .FREE)
    (hm : (k.slab s).mem = some m) (hj : j ≤ i) (hn : i < j + n) :
    Slab.findBuffer k (some m) n j = some (some s) := by
  have hcm := hbufs i c hc
  obtain ⟨-, hcb⟩ := h.classes.buffer i c hc hcm
  have hsm : s ∈ V.slabs c := mem_slabsOf.2 ⟨g, hs⟩
  induction n generalizing j with
  | zero => omega
  | succ n ih =>
    unfold Slab.findBuffer
    cases hb : k.memoryBuffers j with
    | none =>
      have hne : j ≠ i := by
        intro he
        subst he
        rw [hc] at hb
        cases hb
      exact ih (by omega) (by omega)
    | some c' =>
      have hcm' := hbufs j c' hb
      obtain ⟨-, hcb'⟩ := h.classes.buffer j c' hb hcm'
      have hfind : ∀ g, Slab.findSlab k (some m) addrSpace ((k.cache c').first g) =
          some ((V.lists c' g).find? fun s => (k.slab s).mem = some m) := fun g =>
        findSlab_eq ((h.reps c' hcm').shelves.lists g).linked
          ((h.list_length hcm' g).trans (by decide))
      have huniq : ∀ g u, ((V.lists c' g).find? fun s => (k.slab s).mem = some m) = some u →
          u = s := by
        intro g u hu
        have hmem := List.mem_of_find?_eq_some hu
        have hmu : (k.slab u).mem = some m := by simpa using List.find?_some hu
        exact h.buffer_slab hcm' hcb' (mem_slabsOf.2 ⟨g, hmem⟩) hcm hcb hsm (hmu.trans hm.symm)
      have hp := hfind .PARTIAL
      have hf := hfind .FULL
      simp only [Cache.first] at hp hf
      simp only [hp, hf, Option.bind_eq_bind, Option.bind_some]
      cases hp' : (V.lists c' .PARTIAL).find? fun s => (k.slab s).mem = some m with
      | some u => rw [huniq _ u hp']; rfl
      | none =>
        cases hf' : (V.lists c' .FULL).find? fun s => (k.slab s).mem = some m with
        | some u => rw [huniq _ u hf']; rfl
        | none =>
          have hne : j ≠ i := by
            intro he
            subst he
            rw [hc, Option.some.injEq] at hb
            subst hb
            rw [List.find?_eq_none] at hp' hf'
            cases g with
            | FREE => exact hg rfl
            | PARTIAL => exact absurd hm (by simpa using hp' s hs)
            | FULL => exact absurd hm (by simpa using hf' s hs)
          exact ih (by omega) (by omega)

/-- `findBuffer` finds nothing if no partial or full slab has that memory. -/
theorem findBuffer_none {j : Nat} (h : k.Inv V extra)
    (hbufs : ∀ i c, k.memoryBuffers i = some c → c ∈ V.caches)
    (hno : ∀ i c g s, k.memoryBuffers i = some c → g ≠ .FREE → s ∈ V.lists c g →
      (k.slab s).mem ≠ some m) :
    Slab.findBuffer k (some m) n j = some none := by
  induction n generalizing j with
  | zero => rfl
  | succ n ih =>
    unfold Slab.findBuffer
    cases hb : k.memoryBuffers j with
    | none => exact ih
    | some c =>
      have hcm := hbufs j c hb
      have hfind : ∀ g, g ≠ .FREE →
          Slab.findSlab k (some m) addrSpace ((k.cache c).first g) = some none := by
        intro g hg
        rw [findSlab_eq ((h.reps c hcm).shelves.lists g).linked
          ((h.list_length hcm g).trans (by decide)), Option.some.injEq, List.find?_eq_none]
        intro s hs
        simpa using hno j c g s hb hg hs
      have hp := hfind .PARTIAL (by decide)
      have hf := hfind .FULL (by decide)
      simp only [Cache.first] at hp hf
      simp only [hp, hf, Option.bind_eq_bind, Option.bind_some]
      exact ih

/-- The slot of a live buffer: `findBuffer` finds its slab, `putIndex` its index, and the slot
becomes the first free one of the slab. -/
theorem kfree_slot {j : Nat} (h : k.Inv V extra)
    (hbufs : ∀ i c, k.memoryBuffers i = some c → c ∈ V.caches)
    (hc : k.memoryBuffers i = some c) (hslot : Slot k V c s j p) (hj : j ∉ V.chain s) :
    Slab.findBuffer k (some (p / blockSize * blockSize)) bufferNum 0 = some (some s) ∧
    (k.slab s).mem = some (p / blockSize * blockSize) ∧
    sub64 p (p / blockSize * blockSize) / (k.cache c).slotSize % 2 ^ 32 = j ∧
    ∃ k' L, SlabKernel.kfree k (some p) = some k' ∧
      CacheRep k' c L (update V.chain s (j :: V.chain s)) ∧ (slabsOf L).Perm (V.slabs c) ∧
      SameBlocks k k' ∧ (∀ u, u ≠ s → (k'.slab u).body = (k.slab u).body) ∧
      Served k k' V (V.put c L (update V.chain s (j :: V.chain s))) extra (· = c) ∧
      Took k k' V (V.put c L (update V.chain s (j :: V.chain s))) c p := by
  have hcm := hbufs i c hc
  obtain ⟨hi, hb⟩ := h.classes.buffer i c hc hcm
  have hd : ∀ n, k.memBuffSlabs n ≠ some c := fun n => h.classes.not_descriptor hc hcm
  have hhead := h.not_header hcm hd ⟨s, j, hslot, hj⟩
  obtain ⟨m, hm, hpm⟩ := hslot.addr
  obtain ⟨g, hg⟩ := mem_slabsOf.1 hslot.slab
  -- the slab of a live buffer is not free
  have hfree : g ≠ .FREE := by
    intro he
    subst he
    have hlevel : (V.chain s).length = (k.cache c).objNum := (h.reps c hcm).level _ s hg
    have hlen := ((h.reps c hcm).filled _ s hg).put hj hslot.lt (h.reps c hcm).objNum.2
    have := hlen.length_le
    rw [List.length_cons] at this
    omega
  have hpage := h.buffer_page hcm hb hslot
  obtain rfl : m = p / blockSize * blockSize := Option.some.inj (hm.symm.trans hpage)
  have hfind := h.findBuffer_eq hbufs hc hg hfree hm (Nat.zero_le i)
    (show i < 0 + bufferNum by rw [Nat.zero_add]; exact hi)
  have hsmall : j * (k.cache c).slotSize < 2 ^ 64 := by
    have hlt := hslot.lt
    rcases hb.order with ho | ho
    · have hfits := hb.fits
      rw [hb.slabSize, ho, Nat.pow_zero, Nat.one_mul] at hfits
      have := Nat.mul_le_mul_right (k.cache c).slotSize (Nat.le_of_lt hlt)
      unfold blockSize at hfits
      omega
    · rw [show j = 0 by omega, Nat.zero_mul]
      decide
  obtain ⟨k₁, hu, -, hput⟩ := putSlot_spec (h.reps c hcm) hg hm hj hslot.lt hpm
    (h.slotSize_pos hcm) hsmall
  obtain ⟨k', L, he, hrep, ht, hperm, hsame, hbody⟩ := hput k₁.calls
  have hindex := putIndex_index hpm (h.slotSize_pos hcm) hsmall
    (Nat.lt_trans hslot.lt (h.reps c hcm).objNum.2)
  refine ⟨hfind, hm, hindex, k', L, ?_, hrep, hperm, hsame, hbody,
    h.put_back hcm hslot hrep ht hperm hsame hhead⟩
  unfold SlabKernel.kfree deallocateBuffer Slab.putBuffer
  simp only [hfind, hu, Option.bind_eq_bind, Option.bind_some]
  exact he

/-- A live buffer goes back to its cache. -/
theorem kfree (h : k.Inv V extra) (hbufs : ∀ i c, k.memoryBuffers i = some c → c ∈ V.caches)
    (hc : k.memoryBuffers i = some c) (hp : Live k V c p) :
    ∃ k' V', SlabKernel.kfree k (some p) = some k' ∧ Served k k' V V' extra (· = c) ∧
      Took k k' V V' c p ∧ (V'.slabs c).Perm (V.slabs c) := by
  obtain ⟨s, j, hslot, hj⟩ := hp
  obtain ⟨-, -, -, k', L, he, -, hperm, -, -, hserved, htook⟩ := h.kfree_slot hbufs hc hslot hj
  refine ⟨k', _, he, hserved, htook, ?_⟩
  rw [View.put_slabs]
  exact hperm

/-! ## Allocation -/

end Kmem.Inv

/-- There is a buffer for the next allocation from the buffer cache `c`. -/
def Kmem.Room (k : Kmem) (c : Nat) : Prop :=
  (k.cache c).slabsPartial = none ∧ (k.cache c).slabsFree = none →
    ∃ d, k.memBuffSlabs (getPowerOfTwo (k.cache c).slotSize) = some d ∧ k.Supply d ∧
      ((k.buddyAfter d).alloc (k.cache c).slabOrder).1 ≠ none

/-- The next allocation from the buffer cache `c` needs a slab; there is a descriptor for it, but no
block any more. -/
def Kmem.Starved (k : Kmem) (c : Nat) : Prop :=
  ((k.cache c).slabsPartial = none ∧ (k.cache c).slabsFree = none) ∧
    ∃ d, k.memBuffSlabs (getPowerOfTwo (k.cache c).slotSize) = some d ∧ k.Supply d ∧
      ((k.buddyAfter d).alloc (k.cache c).slabOrder).1 = none

/-- What an allocation does to the descriptors `D` and the slabs `S` of a size class. -/
inductive Supplied (starved : Prop) (D D' S S' : Nat → Prop) : Ptr → Prop
  | same {r : Ptr} : ¬ starved → (∀ p, D' p ↔ D p) → (∀ p, S' p ↔ S p) →
      Supplied starved D D' S S' r
  | slab {m : Nat} (s : Nat) : ¬ starved → ¬ D s → (∀ p, D' p ↔ D p ∨ p = s) →
      (∀ p, S' p ↔ S p ∨ p = s) → Supplied starved D D' S S' (some m)
  | leak (s : Nat) : starved → ¬ D s → (∀ p, D' p ↔ D p ∨ p = s) → (∀ p, S' p ↔ S p) →
      Supplied starved D D' S S' none

namespace Kmem.Inv

/-- The header that the descriptor cache has just given is no slab yet. -/
theorem fresh_header {k₁ : Kmem} {V₁ : View} {c' : Nat} (h : k.Inv V extra) (hdm : d ∈ V.caches)
    (hdo : (k.cache d).IsObject) (h₁ : Served k k₁ V V₁ extra (· = d))
    (hg : Gave k k₁ V V₁ d (some s)) (hc' : c' ∈ V.caches) : s ∉ V₁.slabs c' := by
  intro hs
  have hlive : Live k₁ V₁ d s := (hg.2 s).2 (.inr rfl)
  have hdm₁ : d ∈ V₁.caches := h₁.caches ▸ hdm
  have hcm₁ : c' ∈ V₁.caches := h₁.caches ▸ hc'
  have hdo₁ : (k₁.cache d).IsObject := hdo.congr (congrArg Cache.layout (h₁.fixed d) :)
  obtain ⟨s₀, j, hslot, -⟩ := id hlive
  by_cases ht : (k₁.cache c').type = 0
  · exact h₁.inv.not_slab hdm₁ hdo₁.type hslot hcm₁ ht hs
  · obtain ⟨-, d', hdm', hd', hl⟩ := (h₁.inv.placed c' hcm₁ s hs).buffer ht
    obtain ⟨s₁, j₁, hslot₁, -⟩ := id hl
    obtain rfl := (h₁.inv.slot_unique hdm₁ hdm' hslot hslot₁).1
    -- the header was live before
    have hne : c' ≠ d := fun he => ht (he ▸ hdo₁.type)
    rw [h₁.frame.slabs hc' hne] at hs
    have hlay : (k₁.cache c').layout = (k.cache c').layout :=
      (congrArg Cache.layout (h₁.fixed c') :)
    obtain ⟨h1, h2, -⟩ := Cache.layout_eq hlay
    obtain ⟨-, d₂, -, hd₂, hl₂⟩ := (h.placed c' hc' s hs).buffer (h1 ▸ ht)
    obtain ⟨-, -, -, -, -, -, -, hdesc⟩ := Kmem.pool_eq h₁.pool
    rw [hdesc, h2, hd₂, Option.some.injEq] at hd'
    exact hg.1 (hd' ▸ hl₂)

/-- A header without a slab is written. -/
theorem modSlab_free (h : k.Inv V extra) (hs : ∀ c ∈ V.caches, s ∉ V.slabs c) (f : Slab → Slab) :
    Served k (k.modSlab s f) V V extra fun _ => False := by
  have hframe : Frame k (k.modSlab s f) V V fun _ => False :=
    ⟨fun _ hc _ => hc, fun _ _ _ => rfl, fun _ _ _ => rfl,
      fun c hc _ u hu => update_of_ne (fun he : u = s => hs c hc (he ▸ hu)) _ _,
      fun _ _ _ _ _ => rfl⟩
  refine ⟨h.of_frame hframe h.nodup { h.classes with } (fun i d hd _ => ⟨hd, not_false⟩)
    (fun c hc => .inl ⟨hc, not_false⟩) ?_ rfl, hframe, ⟨rfl, rfl, rfl, rfl⟩, fun _ => rfl, rfl⟩
  have hblocks : V.caches.flatMap (V.slabBlocks (k.modSlab s f)) =
      V.caches.flatMap (V.slabBlocks k) :=
    List.flatMap_congr fun c hc => hframe.slabBlocks hc not_false
  unfold View.blocks
  rw [hblocks]
  exact h.buddy

/-- An allocation from the cache of the class `i`. -/
theorem alloc_buffer (h : k.Inv V extra) (hc : k.memoryBuffers i = some c) (hcm : c ∈ V.caches)
    (hd : k.memBuffSlabs i = some d) (hdm : d ∈ V.caches) (n : Nat) :
    ∃ r k' V', Cache.cacheAllocDepth (n + 2) k c = some (r, k') ∧
      Served k k' V V' extra (fun a => a = c ∨ a = d) ∧ Gave k k' V V' c r ∧
      (r ≠ none ↔ k.Room c) ∧
      Supplied (k.Starved c) (Live k V d) (Live k' V' d) (· ∈ V.slabs c) (· ∈ V'.slabs c) r := by
  obtain ⟨hi, hb⟩ := h.classes.buffer i c hc hcm
  obtain ⟨-, hdo, -⟩ := h.classes.descriptor i d hd hdm
  have htype : (k.cache c).type ≠ 0 := by rw [hb.type]; decide
  have hcd : c ≠ d := fun he => htype (he ▸ hdo.type)
  by_cases hold : (k.cache c).slabsPartial = none ∧ (k.cache c).slabsFree = none
  · have hclass : k.memBuffSlabs (getPowerOfTwo (k.cache c).slotSize) = some d := by
      rw [hb.slotSize, getPowerOfTwo_pow hi, hd]
    obtain ⟨r, k₁, V₁, he, h₁, hg, -, -, hsupply, hafter, -⟩ := h.alloc_object hdm hdo n
    have hc₁ : k₁.cache c = k.cache c := h₁.cache_eq hcm hcd
    have hcm₁ : c ∈ V₁.caches := h₁.caches ▸ hcm
    have hdm₁ : d ∈ V₁.caches := h₁.caches ▸ hdm
    have hlive₁ : ∀ p, Live k₁ V₁ c p ↔ Live k V c p := fun p => h₁.frame.live hcm hcd
    have hslabs₁ : V₁.slabs c = V.slabs c := h₁.frame.slabs hcm hcd
    cases r with
    | none =>
      have hn : ¬ k.Supply d := fun hs => hsupply.2 hs rfl
      have hgrow : Cache.slabAlloc (Cache.cacheAllocDepth (n + 1)) k c =
          some (k₁.setError c (-1)) := by
        unfold Cache.slabAlloc Slab.createBufferSlab
        simp only [if_neg htype, hclass, he, Option.bind_eq_bind, Option.bind_some, pure]
      have h₂ := h₁.inv.setError hcm₁ (-1)
      refine ⟨none, _, V₁, SlabKernel.alloc_failed hold hgrow hc₁,
        (h₁.mono fun _ => .inr).trans (h₂.mono fun _ => .inl),
        fun p => (live_modCache rfl).trans (hlive₁ p), iff_of_false (not_not_intro rfl) fun hr => ?_,
        .same (fun hs => ?_) (fun p => ?_) fun p => by rw [hslabs₁]⟩
      · obtain ⟨d', hd', hs, -⟩ := hr hold
        rw [hclass, Option.some.injEq] at hd'
        exact hn (hd' ▸ hs)
      · obtain ⟨-, d', hd', hs, -⟩ := hs
        rw [hclass, Option.some.injEq] at hd'
        exact hn (hd' ▸ hs)
      · exact (h₂.frame.live hdm₁ hcd.symm).trans (hg p)
    | some s =>
      have hsup := hsupply.1 (Option.some_ne_none s)
      have hs : ∀ c' ∈ V₁.caches, s ∉ V₁.slabs c' := fun c' hc' =>
        h.fresh_header hdm hdo h₁ hg (h₁.caches ▸ hc')
      rcases h₁.inv.buddy.alloc (k.cache c).slabOrder with hbn | ⟨m, b, hbs, hgeom, h0, h12, hinv⟩
      · -- the header stays allocated
        have hstarved : ((k.buddyAfter d).alloc (k.cache c).slabOrder).1 = none := by
          rw [← hafter, hbn]
        have h₂ := h₁.inv.modSlab_free hs fun x => { x with mem := none }
        have h₃ := h₂.inv.setError hcm₁ (-1)
        have hgrow : Cache.slabAlloc (Cache.cacheAllocDepth (n + 1)) k c =
            some ((k₁.modSlab s fun x => { x with mem := none }).setError c (-1)) := by
          unfold Cache.slabAlloc Slab.createBufferSlab
          simp only [if_neg htype, hclass, he, Option.bind_eq_bind, Option.bind_some, hbn, pure]
        refine ⟨none, _, V₁, SlabKernel.alloc_failed hold hgrow hc₁,
          (h₁.mono fun _ => .inr).trans ((h₂.mono fun _ => False.elim).trans
            (h₃.mono fun _ => .inl)), fun p => ?_, iff_of_false (not_not_intro rfl) fun hr => ?_,
          .leak s ⟨hold, d, hclass, hsup, hstarved⟩ hg.1 (fun p => ?_) fun p => by rw [hslabs₁]⟩
        · exact (live_modCache rfl).trans ((h₂.frame.live hcm₁ not_false).trans (hlive₁ p))
        · obtain ⟨d', hd', -, hroom⟩ := hr hold
          rw [hclass, Option.some.injEq] at hd'
          exact hroom (hd' ▸ hstarved)
        · exact (h₃.frame.live hdm₁ hcd.symm).trans ((h₂.frame.live hdm₁ not_false).trans (hg.2 p))
      · have hroom : ((k.buddyAfter d).alloc (k.cache c).slabOrder).1 ≠ none := by
          rw [← hafter, hbs]
          exact Option.some_ne_none m
        obtain ⟨k', L, he', hrep, ht, hperm, hbuddy, hmem⟩ := SlabKernel.alloc_buffer htype hold
          hclass he (h₁.inv.reps c hcm₁) hc₁ hbs fun g hg' => hs c hcm₁ (mem_slabsOf.2 ⟨g, hg'⟩)
        have htype' : (k'.cache c).type ≠ 0 := by
          rw [(Cache.layout_eq ht.layout).1, hc₁]
          exact htype
        have hblock : k'.block c s = (m, (k.cache c).slabOrder) := by
          unfold Kmem.block
          rw [if_neg htype', hmem, if_pos rfl, (Cache.layout_eq ht.layout).2.2.2.1, hc₁]
          rfl
        rw [← hc₁] at hrep
        have hplaced : ∀ V', Frame k₁ k' V₁ V' (· = c) → Placed k' V' c s := by
          intro V' hf
          refine ⟨fun h0 => absurd h0 htype', fun _ => ⟨?_, d, ?_, ?_, ?_⟩⟩
          · rw [hmem, if_pos rfl]
            exact Option.some_ne_none m
          · exact hf.mem d hdm₁ hcd.symm
          · obtain ⟨-, -, -, -, -, -, -, h8⟩ := Kmem.pool_eq ht.pool
            obtain ⟨-, -, -, -, -, -, -, h8'⟩ := Kmem.pool_eq h₁.pool
            rw [h8, h8', (Cache.layout_eq ht.layout).2.1, hc₁]
            exact hclass
          · exact (hf.live hdm₁ hcd.symm).2 ((hg.2 s).2 (.inr rfl))
        obtain ⟨h₂, hg₂, -⟩ := h₁.inv.grown hcm₁ hs hrep ht hperm hmem hplaced
          (by rw [hbuddy, hblock]; exact hinv) (by rw [hbuddy, hgeom.start])
        refine ⟨some m, k', _, he', (h₁.mono fun _ => .inr).trans (h₂.mono fun _ => .inl),
          ⟨fun hl => hg₂.1 ((hlive₁ m).2 hl), fun p => ?_⟩,
          iff_of_true (Option.some_ne_none m) fun _ => ⟨d, hclass, hsup, hroom⟩,
          .slab s (fun hst => ?_) hg.1 (fun p => ?_) fun p => ?_⟩
        · rw [hg₂.2 p, hlive₁ p]
        · obtain ⟨-, d', hd', -, hst⟩ := hst
          rw [hclass, Option.some.injEq] at hd'
          exact hroom (hd' ▸ hst)
        · exact (h₂.frame.live hdm₁ hcd.symm).trans (hg.2 p)
        · rw [View.put_slabs, hperm.mem_iff, List.mem_cons, or_comm]
          exact or_congr_left (by rw [← hslabs₁]; rfl)
  · obtain ⟨q, k', V', he, hs, hg, -, -, hperm, -⟩ := h.alloc_old hcm hold (n + 1)
    exact ⟨some q, k', V', he, hs.mono fun _ => .inl, hg,
      iff_of_true (Option.some_ne_none q) fun hn => absurd hn hold,
      .same (fun hst => hold ⟨hst.1.1, hst.1.2⟩) (fun p => hs.frame.live hdm hcd.symm)
        fun p => hperm.mem_iff⟩

end Kmem.Inv

/-! ## Requests -/

/-- There is a live buffer of the class `i` at `p`. -/
def LiveBuffer (k : Kmem) (V : View) (i p : Nat) : Prop :=
  ∃ c, k.memoryBuffers i = some c ∧ Live k V c p

/-- A buffer has gone back; the other buffers, of whatever class, are still there. -/
theorem Kmem.Inv.liveBuffer_took (h : k.Inv V extra)
    (hbufs : ∀ i c, k.memoryBuffers i = some c → c ∈ V.caches) (hc : c ∈ V.caches)
    (hp : Live k V c p) (hs : Served k k' V V' extra (· = c)) (ht : Took k k' V V' c p)
    (i q : Nat) : LiveBuffer k' V' i q ↔ LiveBuffer k V i q ∧ q ≠ p := by
  obtain ⟨-, -, -, -, -, -, h7, -⟩ := Kmem.pool_eq hs.pool
  unfold LiveBuffer
  rw [h7]
  constructor
  · intro hx
    obtain ⟨a, ha, hla⟩ := hx
    by_cases hac : a = c
    · subst hac
      exact ⟨⟨a, ha, ((ht q).1 hla).1⟩, ((ht q).1 hla).2⟩
    · have hla' := (hs.frame.live (hbufs i a ha) hac).1 hla
      refine ⟨⟨a, ha, hla'⟩, ?_⟩
      intro he
      subst he
      obtain ⟨n, m, hsl, -⟩ := hla'
      obtain ⟨n', m', hsl', -⟩ := hp
      exact hac (h.slot_unique (hbufs i a ha) hc hsl hsl').1
  · intro hx
    obtain ⟨⟨a, ha, hla⟩, hqp⟩ := hx
    refine ⟨a, ha, ?_⟩
    by_cases hac : a = c
    · subst hac
      exact (ht q).2 ⟨hla, hqp⟩
    · exact (hs.frame.live (hbufs i a ha) hac).2 hla

/-- A request of the class `i` has returned `r`. -/
def GaveBuffer (k k' : Kmem) (V V' : View) (i : Nat) (r : Ptr) : Prop :=
  (∀ q, r = some q → ∀ j, ¬ LiveBuffer k V j q) ∧
    ∀ j p, LiveBuffer k' V' j p ↔ LiveBuffer k V j p ∨ j = i ∧ r = some p

theorem Gave.iff {r : Ptr} (h : Gave k k' V V' c r) :
    (∀ q, r = some q → ¬ Live k V c q) ∧ ∀ p, Live k' V' c p ↔ Live k V c p ∨ r = some p := by
  cases r with
  | none =>
    refine ⟨fun q hq => ?_, fun p => (h p).trans ?_⟩
    · cases hq
    · simp only [reduceCtorEq, or_false]
  | some q =>
    refine ⟨fun q' hq' => Option.some.inj hq' ▸ h.1, fun p => (h.2 p).trans ?_⟩
    rw [Option.some.injEq, eq_comm (a := q)]

/-- The buffers of the other classes stay. -/
theorem gaveBuffer {r : Ptr} (h' : k'.Inv V' extra) (hf : Frame k k' V V' fun a => a = c ∨ a = d)
    (hc : c ∈ V'.caches) (hbufs : k'.memoryBuffers = update k.memoryBuffers i (some c))
    (hother : ∀ j a, k.memoryBuffers j = some a → j ≠ i → a ∈ V.caches ∧ ¬ (a = c ∨ a = d))
    (hnew : ∀ q, r = some q → ¬ LiveBuffer k V i q)
    (hlive : ∀ p, Live k' V' c p ↔ LiveBuffer k V i p ∨ r = some p) :
    GaveBuffer k k' V V' i r := by
  refine ⟨fun q hq j => ?_, fun j p => ?_⟩
  · by_cases hj : j = i
    · exact hj ▸ hnew q hq
    · intro hx
      obtain ⟨a, ha, hl⟩ := hx
      obtain ⟨ham, hne⟩ := hother j a ha hj
      obtain ⟨s, n, hs, -⟩ := (hf.live ham hne).2 hl
      obtain ⟨s', n', hs', -⟩ := (hlive q).2 (.inr hq)
      exact hne (.inl (h'.slot_unique (hf.mem a ham hne) hc hs hs').1)
  · unfold LiveBuffer
    rw [hbufs]
    by_cases hj : j = i
    · subst hj
      simp only [update_self, Option.some.injEq, exists_eq_left', true_and]
      exact hlive p
    · simp only [update_of_ne hj, hj, false_and, or_false]
      refine exists_congr fun a => and_congr_right fun ha => ?_
      obtain ⟨ham, hne⟩ := hother j a ha hj
      exact hf.live ham hne

/-- Slabs of the size classes have an order. -/
theorem class_bound {size : Nat} (hsize : minBuffSize ≤ size) (hsize' : size ≤ maxBuffSize) :
    2 ^ (minBuffOrder + getPowerOfTwo size) + 76 ≤ 2 ^ 12 * blockSize := by
  obtain ⟨hi, -, -⟩ := getPowerOfTwo_spec hsize hsize'
  have : 2 ^ (minBuffOrder + getPowerOfTwo size) ≤ 2 ^ 17 :=
    Nat.pow_le_pow_right (by decide) (by unfold minBuffOrder bufferNum at *; omega)
  unfold blockSize
  omega

theorem cacheAlloc_eq (k : Kmem) (c : Nat) :
    Cache.cacheAlloc k c = Cache.cacheAllocDepth ((2 ^ 64 - 2) + 2) k c := rfl

/-- The first part of `allocateBuffer`: the first request of a size class makes its cache. -/
def Kmem.readied (k : Kmem) (size : Nat) : Option Kmem :=
  match k.memoryBuffers (getPowerOfTwo size) with
  | some _ => some k
  | none => do
    let (c, k) ← kmem_cache_create k (2 ^ (minBuffOrder + getPowerOfTwo size)) none none
    bufferInit { k with memoryBuffers := update k.memoryBuffers (getPowerOfTwo size) c }
      (getPowerOfTwo size) size

theorem kmalloc_eq {size : Nat} (hsize : minBuffSize ≤ size) (hsize' : size ≤ maxBuffSize) :
    SlabKernel.kmalloc k size = (k.readied size).bind fun k =>
      (k.memoryBuffers (getPowerOfTwo size)).bind (Cache.cacheAlloc k) := by
  have hrange : ¬ (size < minBuffSize ∨ size > maxBuffSize) := by omega
  unfold SlabKernel.kmalloc allocateBuffer Kmem.readied
  rw [if_neg hrange]
  cases hc : k.memoryBuffers (getPowerOfTwo size) with
  | some c => simp only [hc, Option.bind_eq_bind, Option.bind_some]
  | none => simp only [hc, Option.bind_eq_bind, Option.bind_assoc]

/-- `p` is a live object of the descriptor cache of the class `i`. -/
def Descriptor (k : Kmem) (V : View) (i p : Nat) : Prop :=
  ∃ d, k.memBuffSlabs i = some d ∧ Live k V d p

/-- `p` is a slab of the buffer cache of the class `i`. -/
def BufferSlab (k : Kmem) (V : View) (i p : Nat) : Prop :=
  ∃ c, k.memoryBuffers i = some c ∧ p ∈ V.slabs c

theorem descriptor_eq (hd : k.memBuffSlabs i = some d) : Descriptor k V i = Live k V d := by
  funext p
  simp only [Descriptor, hd, Option.some.injEq, exists_eq_left']

theorem bufferSlab_eq (hc : k.memoryBuffers i = some c) : BufferSlab k V i = (· ∈ V.slabs c) := by
  funext p
  simp only [BufferSlab, hc, Option.some.injEq, exists_eq_left']

/-- `bufferInit` turns the new cache into the one of its class. -/
theorem Created.buffer {k₁ : Kmem} {size o : Nat}
    (h : Created k k₁ V V' (V.caches.flatMap (V.slabBlocks k) ++ extra) c
      (Cache.init (2 ^ (minBuffOrder + getPowerOfTwo size)) none none o n))
    (hk : k.Whole V extra) (hsize : minBuffSize ≤ size) (hsize' : size ≤ maxBuffSize)
    (hfit : FitsClass size) (hnone : k.memoryBuffers (getPowerOfTwo size) = none)
    (hbufs : k₁.memoryBuffers = k.memoryBuffers) (hdescs : k₁.memBuffSlabs = k.memBuffSlabs) :
    ∃ k', bufferInit { k₁ with
          memoryBuffers := update k₁.memoryBuffers (getPowerOfTwo size) (some c) }
        (getPowerOfTwo size) size = some k' ∧ k'.Whole V' extra ∧
      Frame k k' V V' (fun _ => False) ∧
      k'.memoryBuffers = update k.memoryBuffers (getPowerOfTwo size) (some c) ∧
      k'.memBuffSlabs = k.memBuffSlabs ∧ (Unbroken k V → Unbroken k' V') := by
  have hC : (Cache.init (2 ^ (minBuffOrder + getPowerOfTwo size)) none none o n).slotSize =
    2 ^ (minBuffOrder + getPowerOfTwo size) := rfl
  have hfirst : ∀ g, (Cache.init (2 ^ (minBuffOrder + getPowerOfTwo size)) none none o n).first g =
    none := fun g => by cases g <;> rfl
  have hnum : (Cache.init (2 ^ (minBuffOrder + getPowerOfTwo size)) none none o n).numOfSlabs = 0 :=
    rfl
  generalize Cache.init (2 ^ (minBuffOrder + getPowerOfTwo size)) none none o n = C at *
  let k' := ({ k₁ with memoryBuffers := update k₁.memoryBuffers (getPowerOfTwo size) (some c) } :
    Kmem).modCache c (·.toBuffer size)
  have hother : ∀ a ≠ c, k'.cache a = k₁.cache a := fun a ha => update_of_ne ha _ _
  have hself : k'.cache c = (k₁.cache c).toBuffer size := update_self _ _ _
  have hbufs' : k'.memoryBuffers = update k.memoryBuffers (getPowerOfTwo size) (some c) :=
    hbufs ▸ rfl
  have hcreated : Created k k' V V' (V.caches.flatMap (V.slabBlocks k) ++ extra) c
      (C.toBuffer size) := by
    refine { h with pool := ?_, cache := ?_, other := fun a ha => ?_ }
    · refine h.pool.congr rfl fun a _ => ?_
      by_cases hac : a = c
      · rw [hac, hself]
        exact ⟨rfl, rfl⟩
      · rw [hother a hac]
        exact ⟨rfl, rfl⟩
    · rw [hself, ← h.cache]
      rfl
    · rw [hother a ha]
      exact h.other a ha
  have hbuffer : (k'.cache c).IsBuffer (getPowerOfTwo size) := by
    apply Cache.IsBuffer.congr ((isBuffer_iff hsize hsize' hC).2 hfit)
    rw [← hcreated.cache]
    rfl
  have hcases : ∀ i a, k'.memoryBuffers i = some a →
      i = getPowerOfTwo size ∧ a = c ∨ i ≠ getPowerOfTwo size ∧ k.memoryBuffers i = some a := by
    intro i a hi
    rw [hbufs'] at hi
    by_cases hii : i = getPowerOfTwo size
    · subst hii
      rw [update_self, Option.some.injEq] at hi
      exact .inl ⟨rfl, hi.symm⟩
    · rw [update_of_ne hii] at hi
      exact .inr ⟨hii, hi⟩
  have hclasses : Classes k' V' := by
    refine ⟨fun a ha => ?_, fun i a hi _ => ?_, fun i d hi _ => ?_⟩
    · rcases h.mem.1 ha with ha | rfl
      · rcases hk.classes.kind a ha with ho | ⟨i, hi⟩
        · exact .inl (ho.congr (hcreated.layout ha))
        · have hne : i ≠ getPowerOfTwo size := fun he => by
            rw [he, hnone] at hi
            cases hi
          exact .inr ⟨i, by rw [hbufs', update_of_ne hne, hi]⟩
      · exact .inr ⟨_, by rw [hbufs', update_self]⟩
    · rcases hcases i a hi with ⟨rfl, rfl⟩ | ⟨-, hi⟩
      · exact ⟨(getPowerOfTwo_spec hsize hsize').1, hbuffer⟩
      · have ha := hk.buffers i a hi
        obtain ⟨hlt, hb⟩ := hk.classes.buffer i a hi ha
        exact ⟨hlt, hb.congr (hcreated.layout ha)⟩
    · change k₁.memBuffSlabs i = some d at hi
      rw [hdescs] at hi
      have hd := hk.descriptors i d hi
      obtain ⟨hlt, ho, horder, hs⟩ := hk.classes.descriptor i d hi hd
      obtain ⟨-, h2, -, h4, -⟩ := Cache.layout_eq (hcreated.layout hd)
      exact ⟨hlt, ho.congr (hcreated.layout hd), h4.trans horder, h2.trans hs⟩
  have hobj : 1 ≤ firstObjNum size ∧ firstObjNum size < endIndex := by
    have hle : firstObjNum size ≤ numObjects (getPowerOfTwo size) := hfit
    have := hle.trans (numObjects_le _)
    have hlt : blockSize < endIndex := by decide
    exact ⟨firstObjNum_pos hsize, by omega⟩
  refine ⟨k', ?_, hcreated.whole hk (fun g => ?_) hnum hobj hclasses (fun i a hi => ?_) hdescs,
    hcreated.frame, hbufs', hdescs, hcreated.unbroken⟩
  · unfold bufferInit
    simp only [update_self, Option.bind_eq_bind, Option.bind_some, pure]
    rfl
  · have := hfirst g
    cases g <;> exact this
  · rcases hcases i a hi with ⟨-, rfl⟩ | ⟨-, hi⟩
    · exact h.mem.2 (.inr rfl)
    · exact h.mem.2 (.inl (hk.buffers i a hi))

/-- A request in the range of the size classes, the first one of its class or a later one. -/
theorem Kmem.Whole.kmalloc {size : Nat} (h : k.Whole V extra)
    (hready : ∀ i < bufferNum, k.memBuffSlabs i ≠ none) (hsize : minBuffSize ≤ size)
    (hsize' : size ≤ maxBuffSize)
    (hfit : k.memoryBuffers (getPowerOfTwo size) = none → FitsClass size) :
    (k.memoryBuffers (getPowerOfTwo size) = none ∧ ¬ k.Available ∧
      SlabKernel.kmalloc k size = none) ∨
    ∃ r k' V' c d, SlabKernel.kmalloc k size = some (r, k') ∧ k'.Whole V' extra ∧
      (Unbroken k V → Unbroken k' V') ∧
      Frame k k' V V' (fun a => a = c ∨ a = d) ∧
      k'.memoryBuffers = update k.memoryBuffers (getPowerOfTwo size) (some c) ∧
      k'.memBuffSlabs = k.memBuffSlabs ∧ k.memBuffSlabs (getPowerOfTwo size) = some d ∧
      (k.memoryBuffers (getPowerOfTwo size) = some c ∧ V'.caches = V.caches ∨
        k.memoryBuffers (getPowerOfTwo size) = none ∧ c ∉ V.caches ∧ V'.caches = V.caches ++ [c]) ∧
      GaveBuffer k k' V V' (getPowerOfTwo size) r ∧
      ∃ k₁, k.readied size = some k₁ ∧ k₁.memoryBuffers (getPowerOfTwo size) = some c ∧
        (r ≠ none ↔ k₁.Room c) ∧
        Supplied (k₁.Starved c) (Descriptor k V (getPowerOfTwo size))
          (Descriptor k' V' (getPowerOfTwo size)) (BufferSlab k V (getPowerOfTwo size))
          (BufferSlab k' V' (getPowerOfTwo size)) r := by
  obtain ⟨hi, -, -⟩ := getPowerOfTwo_spec hsize hsize'
  obtain ⟨d, hd⟩ := Option.ne_none_iff_exists'.1 (hready _ hi)
  have hdm := h.descriptors _ d hd
  obtain ⟨-, hdo, -⟩ := h.classes.descriptor _ d hd hdm
  -- the caches of the other classes
  have hother : ∀ j a, k.memoryBuffers j = some a → a ∈ V.caches ∧ a ≠ d := by
    intro j a ha
    have ham := h.buffers j a ha
    exact ⟨ham, fun hac => h.classes.not_descriptor ha ham (hac ▸ hd)⟩
  rw [kmalloc_eq hsize hsize']
  unfold Kmem.readied
  cases hc : k.memoryBuffers (getPowerOfTwo size) with
  | some c =>
    right
    have hcm := h.buffers _ c hc
    obtain ⟨r, k', V', he, hs, hg, hroom, hsup⟩ := h.alloc_buffer hc hcm hd hdm (2 ^ 64 - 2)
    obtain ⟨-, -, -, -, -, -, h7, h8⟩ := Kmem.pool_eq hs.pool
    have hlive : ∀ p, LiveBuffer k V (getPowerOfTwo size) p ↔ Live k V c p := fun p => by
      simp only [LiveBuffer, hc, Option.some.injEq, exists_eq_left']
    have hbufs : k'.memoryBuffers = update k.memoryBuffers (getPowerOfTwo size) (some c) := by
      rw [h7, ← hc, update_eq_self]
    refine ⟨r, k', V', c, d, ?_, hs.whole h, hs.unbroken.2, hs.frame, hbufs, h8, hd,
      .inl ⟨rfl, hs.caches⟩,
      gaveBuffer hs.inv hs.frame (hs.caches ▸ hcm) hbufs (fun j a ha hj => ?_) (fun q hq => ?_)
      fun p => ?_, k, rfl, hc, hroom, ?_⟩
    · simp only [hc, Option.bind_some, cacheAlloc_eq, he]
    · exact ⟨(hother j a ha).1, fun hor => hor.elim
        (fun hac => hj (h.classes.buffer_inj ha (hac ▸ hc) (hother j a ha).1)) (hother j a ha).2⟩
    · rw [hlive]
      exact hg.iff.1 q hq
    · rw [hlive]
      exact hg.iff.2 p
    · rwa [descriptor_eq hd, descriptor_eq (h8 ▸ hd), bufferSlab_eq hc, bufferSlab_eq (h7 ▸ hc)]
  | none =>
    obtain ⟨o, ho, -⟩ := Cache.getOrder_spec ((class_bound hsize hsize').trans (by decide))
    rcases h.create none none ho with
      ⟨ha, k', V', he, -⟩ | ⟨-, c, k₁, V₁, he, hcr, hb, hd'⟩
    · refine .inl ⟨rfl, ha, ?_⟩
      -- the members of the cache are set through a null pointer
      simp only [he, bufferInit, update_self, Option.bind_eq_bind, Option.bind_some, Option.bind_none]
    · right
      obtain ⟨k₂, he₂, h₂, hf₂, hbufs₂, hdescs₂, hu₂⟩ := hcr.buffer h hsize hsize' (hfit hc) hc hb hd'
      have hc₂ : k₂.memoryBuffers (getPowerOfTwo size) = some c := by rw [hbufs₂, update_self]
      have hcm₂ : c ∈ V₁.caches := hcr.mem.2 (.inr rfl)
      obtain ⟨r, k', V', he', hs, hg, hroom, hsup⟩ := h₂.alloc_buffer hc₂ hcm₂ (hdescs₂ ▸ hd)
        (hcr.mem.2 (.inl hdm)) (2 ^ 64 - 2)
      obtain ⟨-, -, -, -, -, -, h7, h8⟩ := Kmem.pool_eq hs.pool
      have hframe := (hf₂.mono fun _ => False.elim).trans hs.frame
      have hnone : ∀ p, ¬ LiveBuffer k V (getPowerOfTwo size) p := by
        rintro p ⟨a, ha, -⟩
        rw [hc] at ha
        cases ha
      have hempty : ∀ p, ¬ Live k₂ V₁ c p := by
        rintro p ⟨s, j, hslot, -⟩
        have := hslot.slab
        rw [hcr.slabs] at this
        exact absurd this List.not_mem_nil
      have hbufs : k'.memoryBuffers = update k.memoryBuffers (getPowerOfTwo size) (some c) :=
        h7.trans hbufs₂
      refine ⟨r, k', V', c, d, ?_, hs.whole h₂, fun hu => hs.unbroken.2 (hu₂ hu), hframe, hbufs,
        h8.trans hdescs₂, hd,
        .inr ⟨rfl, hcr.new, hs.caches.trans hcr.caches⟩,
        gaveBuffer hs.inv hframe (hs.caches ▸ hcm₂) hbufs (fun j a ha _ => ?_)
          (fun q _ => hnone q) fun p => ?_, k₂, ?_, hc₂, hroom, ?_⟩
      · simp only [he, he₂, Option.bind_eq_bind, Option.bind_some, hc₂, cacheAlloc_eq, he']
      · obtain ⟨ham, had⟩ := hother j a ha
        exact ⟨ham, fun hor => hor.elim (hcr.ne ham) had⟩
      · rw [hg.iff.2 p, or_iff_right (hempty p), or_iff_right (hnone p)]
      · simp only [he, he₂, Option.bind_eq_bind, Option.bind_some]
      · have hslab : BufferSlab k V (getPowerOfTwo size) = (· ∈ V₁.slabs c) := by
          funext p
          simp only [BufferSlab, hc, hcr.slabs, reduceCtorEq, false_and, exists_false,
            List.not_mem_nil]
        have hdesc : Descriptor k V (getPowerOfTwo size) = Live k₂ V₁ d := by
          funext p
          rw [descriptor_eq hd]
          exact propext (hf₂.live hdm not_false).symm
        rwa [hslab, hdesc, descriptor_eq (h8 ▸ hdescs₂ ▸ hd), bufferSlab_eq (h7 ▸ hc₂)]

end SlabKernel
