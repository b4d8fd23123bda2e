import SlabKernel.Slab.Calls

/-!
# Creating caches

`allocateSlot` takes the first free slot of a record, of a new one if need be (`Pool.allocateSlot`);
it fails if the buddy allocator has no page left, and then loses the tail of the list of records
(`Failed`). After a success (`Taken`) the constructor appends a cache without slabs to the list of
caches (`Pool.construct`, `Created`), whose slab order and number of slots are those of `getOrder`
(`getOrder_spec`).
-/

namespace SlabKernel

open Function (update update_self update_of_ne update_eq_self)
open PtrList

/-! ## Counting loops -/

theorem countLoop_eq {fits : Nat → Bool} {fuel n m : Nat} (hnm : n ≤ m)
    (hlt : ∀ j < m, fits j = true) (hm : fits m = false) (hf : m - n < fuel) :
    countLoop fits fuel n = some m := by
  induction fuel generalizing n with
  | zero => exact absurd hf (Nat.not_lt_zero _)
  | succ fuel ih =>
    unfold countLoop
    by_cases hn : n = m
    · rw [hn, hm]
      rfl
    · rw [hlt n (by omega), if_pos rfl]
      exact ih (by omega) (by omega)

/-- The number of objects of `a` bytes that fit behind `b` bytes, and one more. -/
theorem countLoop_fits {fits : Nat → Bool} {a b size : Nat} (ha : 1 ≤ a) (hb : b ≤ size)
    (hs : size < 2 ^ 64 - 1)
    (hfits : ∀ j, j * a + b ≤ size + a → (fits j = true ↔ j * a + b ≤ size)) :
    countLoop fits addrSpace 0 = some ((size - b) / a + 1) := by
  have hdiv : ∀ j, j * a + b ≤ size ↔ j ≤ (size - b) / a := fun j => by
    rw [Nat.le_div_iff_mul_le ha]
    omega
  have hq : ((size - b) / a + 1) * a + b ≤ size + a := by
    have := (hdiv ((size - b) / a)).2 (Nat.le_refl _)
    rw [Nat.succ_mul]
    omega
  have hle : (size - b) / a ≤ size := (Nat.div_le_self _ _).trans (Nat.sub_le _ _)
  refine countLoop_eq (Nat.zero_le _) (fun j hj => ?_) ?_ ?_
  · have hj' := (hdiv j).2 (Nat.lt_succ_iff.1 hj)
    exact (hfits j (by omega)).2 hj'
  · rw [← Bool.not_eq_true, hfits _ hq, hdiv]
    omega
  · unfold addrSpace
    omega

/-! ## The order of a slab -/

namespace Cache

/-- The slots of a slab of the order `o`. -/
abbrev slotsOf (slotSize o : Nat) : Nat := (2 ^ o * blockSize - sizeofSlab) / (slotSize + 4)

/-- The counting loop for the slabs of the order `o`. -/
theorem countLoop_slots {slotSize o : Nat} (ho : o ≤ 51) (hs : slotSize + 76 ≤ 2 ^ 63) :
    countLoop (fun n => (n * slotSize + n * 4 + sizeofSlab) % 2 ^ 64 ≤ 2 ^ o * blockSize % 2 ^ 64)
      addrSpace 0 = some (slotsOf slotSize o + 1) := by
  have h1 : 2 ^ o ≤ 2 ^ 51 := Nat.pow_le_pow_right (by decide) ho
  have h2 : 1 ≤ 2 ^ o := Nat.one_le_two_pow
  have hsize : 2 ^ o * blockSize % 2 ^ 64 = 2 ^ o * blockSize :=
    Nat.mod_eq_of_lt (by unfold blockSize; omega)
  rw [hsize]
  refine countLoop_fits (by omega) ?_ ?_ fun j hj => ?_
  · unfold blockSize sizeofSlab
    omega
  · unfold blockSize
    omega
  · rw [decide_eq_true_iff, ← Nat.mul_add, Nat.mod_eq_of_lt]
    unfold blockSize at hj
    omega

theorem getOrderLoop_succ {slotSize fuel o : Nat} (ho : o ≤ 51) (hs : slotSize + 76 ≤ 2 ^ 63) :
    getOrderLoop slotSize (fuel + 1) o =
      if slotsOf slotSize o = 0 then getOrderLoop slotSize fuel (o + 1)
      else some (o, slotsOf slotSize o) := by
  have h1 : 2 ^ o ≤ 2 ^ 51 := Nat.pow_le_pow_right (by decide) ho
  have hsub : sub64 (slotsOf slotSize o + 1) 1 = slotsOf slotSize o := by
    have hle : slotsOf slotSize o ≤ 2 ^ o * blockSize :=
      (Nat.div_le_self _ _).trans (Nat.sub_le _ _)
    rw [sub64_of_le (by omega) (by unfold blockSize at hle; omega), Nat.add_sub_cancel]
  rw [getOrderLoop, countLoop_slots ho hs]
  simp only [Option.bind_eq_bind, Option.bind_some, hsub, Nat.add_eq_right, pure]

/-- The least order whose slabs have a slot. -/
theorem getOrderLoop_spec {slotSize fuel o : Nat} (hfuel : o + fuel = 53) (ho : o ≤ 51)
    (hs : slotSize + 76 ≤ 2 ^ 63) (hprev : o = 0 ∨ slotsOf slotSize (o - 1) = 0) :
    ∃ o', getOrderLoop slotSize fuel o = some (o', slotsOf slotSize o') ∧
      1 ≤ slotsOf slotSize o' ∧ o' ≤ 51 ∧ (o' = 0 ∨ slotsOf slotSize (o' - 1) = 0) := by
  induction fuel generalizing o with
  | zero => omega
  | succ fuel ih =>
    rw [getOrderLoop_succ ho hs]
    split
    · rename_i hzero
      have hne : o ≠ 51 := by
        intro he
        subst he
        rw [Nat.div_eq_zero_iff] at hzero
        unfold blockSize sizeofSlab at hzero
        omega
      exact ih (by omega) (by omega) (.inr hzero)
    · rename_i hpos
      exact ⟨o, rfl, Nat.pos_of_ne_zero hpos, ho, hprev⟩

theorem getOrder_spec {slotSize : Nat} (hs : slotSize + 76 ≤ 2 ^ 63) :
    ∃ o, getOrder slotSize = some (o, slotsOf slotSize o) ∧ 1 ≤ slotsOf slotSize o ∧ o ≤ 51 ∧
      (o = 0 ∨ slotsOf slotSize (o - 1) = 0) :=
  getOrderLoop_spec rfl (by decide) hs (.inl rfl)

/-- A slab of more than one page has at most two objects. -/
theorem slotsOf_le {slotSize o : Nat} (h : o = 0 ∨ slotsOf slotSize (o - 1) = 0) :
    slotsOf slotSize o ≤ 1006 := by
  rcases h with rfl | h
  · unfold slotsOf blockSize sizeofSlab
    exact (Nat.div_le_div_left (by omega : 4 ≤ slotSize + 4) (by decide)).trans (by decide)
  · cases o with
    | zero => rw [h]; exact Nat.zero_le _
    | succ o =>
      rw [Nat.add_sub_cancel, Nat.div_eq_zero_iff] at h
      have h1 : 1 ≤ 2 ^ o := Nat.one_le_two_pow
      rw [← Nat.lt_succ_iff, Nat.div_lt_iff_lt_mul (by omega), Nat.pow_succ]
      unfold blockSize sizeofSlab at *
      omega

theorem slotsOf_fits {slotSize o : Nat} : sizeofSlab + 4 * slotsOf slotSize o +
    slotsOf slotSize o * slotSize ≤ 2 ^ o * blockSize := by
  have hdiv := Nat.div_mul_le_self (2 ^ o * blockSize - sizeofSlab) (slotSize + 4)
  have h1 : 1 ≤ 2 ^ o := Nat.one_le_two_pow
  rw [Nat.mul_add] at hdiv
  unfold slotsOf
  unfold blockSize sizeofSlab at *
  omega

/-- An object of at most 4020 bytes fits behind the header of a slab of one page. -/
theorem getOrder_object {slotSize : Nat} (hs : slotSize ≤ 4020) :
    getOrder slotSize = some (0, slotsOf slotSize 0) := by
  have hpos : slotsOf slotSize 0 ≠ 0 := by
    unfold slotsOf
    rw [Ne, Nat.div_eq_zero_iff]
    unfold blockSize sizeofSlab
    omega
  unfold getOrder
  rw [getOrderLoop_succ (Nat.zero_le _) (by omega), if_neg hpos]

theorem slabBytes_eq {o : Nat} (ho : o ≤ 18) : slabBytes o = 2 ^ o * blockSize := by
  have h1 : 2 ^ o ≤ 2 ^ 18 := Nat.pow_le_pow_right (by decide) ho
  unfold slabBytes blockSize
  rw [show (2 : Int) ^ o = (2 ^ o : Nat) by norm_num]
  generalize 2 ^ o = n at h1 ⊢
  rw [toInt32_of_range (n := n) (by omega) (by omega), toInt32_of_range (by omega) (by omega)]
  omega

/-- The order of a slab for objects that fit in `2 ^ 18` pages. -/
theorem order_le {slotSize o : Nat} (hs : slotSize + 76 ≤ 2 ^ 18 * blockSize)
    (hprev : o = 0 ∨ slotsOf slotSize (o - 1) = 0) : o ≤ 18 := by
  by_contra hlt
  have hz := hprev.resolve_left (by omega)
  have hpow : 2 ^ 18 ≤ 2 ^ (o - 1) := Nat.pow_le_pow_right (by decide) (by omega)
  rw [Nat.div_eq_zero_iff] at hz
  unfold blockSize sizeofSlab at *
  omega

end Cache

/-! ## Records -/

variable {k k' : Kmem} {V V' : View} {extra : List (Nat × Nat)} {c r : Nat}

theorem slotAddr_inj {i j : Nat} (h : slotAddr r i = slotAddr r j) : i = j := by
  unfold slotAddr sizeofCache at h
  omega

/-- A slot lies in the page of its record. -/
theorem slotAddr_header {j : Nat} (hr : blockSize ∣ r) (hj : j < slotNum) :
    slotAddr r j / blockSize * blockSize = r := by
  obtain ⟨n, rfl⟩ := hr
  unfold slotAddr blockSize sizeofCacheRecord sizeofCache
  have : slotNum = 31 := rfl
  omega

/-- The writes of a loop over `n` distinct addresses. -/
theorem foldl_update {α β : Type*} [DecidableEq α] {a : Nat → α} {v : Nat → β} (f : α → β) (n : Nat)
    (ha : ∀ i j, a i = a j → i = j) :
    (∀ i < n, (List.range n).foldl (fun f i => update f (a i) (v i)) f (a i) = v i) ∧
    ∀ x, (∀ i < n, x ≠ a i) → (List.range n).foldl (fun f i => update f (a i) (v i)) f x = f x := by
  induction n with
  | zero => exact ⟨fun i hi => absurd hi (Nat.not_lt_zero _), fun _ _ => rfl⟩
  | succ n ih =>
    simp only [List.range_succ, List.foldl_append, List.foldl_cons, List.foldl_nil]
    refine ⟨fun i hi => ?_, fun x hx => ?_⟩
    · by_cases hin : i = n
      · rw [hin, update_self]
      · rw [update_of_ne fun he => hin (ha _ _ he)]
        exact ih.1 i (by omega)
    · rw [update_of_ne (hx n (Nat.lt_succ_self n))]
      exact ih.2 x fun i hi => hx i (Nat.lt_succ_of_lt hi)

/-- The free slots of a new record. -/
def allSlots (r : Nat) : List Nat := (List.range slotNum).map (slotAddr r)

theorem mem_allSlots {a : Nat} : a ∈ allSlots r ↔ ∃ j < slotNum, a = slotAddr r j := by
  simp only [allSlots, List.mem_map, List.mem_range, eq_comm]

/-- What `createRecord` stores at `r`. -/
def newRecord (r : Nat) : CacheRecord := ⟨slotNum, slotNum, none, some (slotAddr r 0), slotAddr r 0⟩

/-- There is a free slot, or a page for a new record. -/
def Kmem.Available (k : Kmem) : Prop :=
  CachePool.findRecord k addrSpace k.head ≠ some none ∨ (k.buddy.alloc 0).1 ≠ none

instance (k : Kmem) : Decidable k.Available := inferInstanceAs (Decidable (_ ∨ _))

theorem allocateSlot_available (h : CachePool.allocateSlot k = some (some c, k')) :
    k.Available := by
  by_contra ha
  unfold Kmem.Available at ha
  rw [not_or, not_not, not_not] at ha
  obtain ⟨hfind, hb⟩ := ha
  unfold CachePool.allocateSlot CachePool.createRecord at h
  cases hr : k.buddy.alloc 0 with
  | mk r b =>
    rw [hr] at hb
    subst hb
    simp only [hfind, hr, Option.bind_eq_bind, Option.bind_some] at h
    cases ht : k.tail with
    | none => simp [ht] at h
    | some t => simp [ht] at h

/-- The state with a new record at `r` behind the record `t`. -/
def Kmem.appendRecord (k : Kmem) (buddy : Buddy) (freeLink : Nat → Ptr) (t r : Nat) : Kmem :=
  { k with
    buddy
    record := update (update k.record r (newRecord r)) t
      { update k.record r (newRecord r) t with next := some r }
    freeLink
    tail := some r }

/-- A new record has all its slots on its chain. -/
theorem createRecord_spec {b : Buddy} (hb : k.buddy.alloc 0 = (some r, b)) :
    ∃ f, CachePool.createRecord k = some (some r, { k with
        buddy := b
        record := update k.record r (newRecord r)
        freeLink := f }) ∧
      Linked f (some (slotAddr r 0)) (allSlots r) ∧ ∀ x ∉ allSlots r, f x = k.freeLink x := by
  have hnum : countLoop (fun n => n * sizeofCache + sizeofCacheRecord ≤ blockSize) addrSpace 0 =
      some 32 :=
    countLoop_fits (by decide) (by decide) (by decide) fun _ _ => decide_eq_true_iff
  obtain ⟨h1, h2⟩ := foldl_update (a := slotAddr r) (v := fun i =>
    if i < slotNum - 1 then some (slotAddr r (i + 1)) else none) k.freeLink slotNum
    fun _ _ => slotAddr_inj
  refine ⟨_, ?_, ?_, fun x hx => h2 x fun i hi he => hx (mem_allSlots.2 ⟨i, hi, he⟩)⟩
  · unfold CachePool.createRecord
    simp only [hb, hnum, Option.bind_eq_bind, Option.bind_some, pure]
    rfl
  · have := linked_range' h1 0 slotNum (Nat.zero_add _) (by decide)
    rwa [← List.range_eq_range'] at this

/-- `findRecord` finds the first record with a free slot. -/
theorem findRecord_eq {p : Ptr} {l : List Nat} {fuel : Nat}
    (h : Linked (fun r => (k.record r).next) p l) (hl : l.length ≤ fuel) :
    CachePool.findRecord k fuel p = some (l.find? fun r => (k.record r).freeSlot ≠ none) := by
  induction l generalizing p fuel with
  | nil =>
    obtain rfl : p = none := h
    cases fuel <;> rfl
  | cons a l ih =>
    obtain ⟨rfl, h⟩ := h
    cases fuel with
    | zero => exact absurd hl (Nat.not_succ_le_zero _)
    | succ fuel =>
      unfold CachePool.findRecord
      rw [ih h (Nat.le_of_succ_le_succ hl)]
      by_cases hf : (k.record a).freeSlot = none
      · rw [if_neg (not_not_intro hf), List.find?_cons_of_neg (by simp [hf])]
      · rw [if_pos hf, List.find?_cons_of_pos (by simp [hf])]

/-- The first free slot of a record is taken. -/
theorem Pool.take {rest : List Nat} (h : Pool k V) (halign : ∀ r ∈ V.records, blockSize ∣ r)
    (hr : r ∈ V.records) (hslots : V.slots r = c :: rest) :
    Pool (k.modRecord r fun x => { x with
        freeSlot := k.freeLink c, numOfFreeSlots := x.numOfFreeSlots - 1 })
      { V with slots := update V.slots r rest } ∧
    (k.record r).freeSlot = some c ∧ c ∉ V.caches ∧ c ∉ rest ∧ ∃ j < slotNum, c = slotAddr r j := by
  have hrep := h.free r hr
  rw [hslots] at hrep
  obtain ⟨j, hj, hcj⟩ := hrep.slots c (.head _)
  have hnd := Linked.nodup hrep.chain
  refine ⟨⟨h.caches, ?_, h.tail, h.subset, h.nodup, fun u hu => ?_, fun a ha => ?_⟩,
    hrep.chain.1, fun hc => ?_, (List.nodup_cons.1 hnd).1, j, hj, hcj⟩
  · refine Seg.congr h.listed fun u _ => ?_
    simp only [Kmem.modRecord]
    by_cases hur : u = r
    · rw [hur, update_self]
    · rw [update_of_ne hur]
  · by_cases hur : u = r
    · subst hur
      simp only [Kmem.modRecord, update_self]
      exact ⟨by simpa only [Kmem.modRecord, update_self] using hrep.numOfSlots,
        by simp [hrep.numOfFreeSlots],
        by simpa only [Kmem.modRecord, update_self] using hrep.chain.2,
        fun a ha => hrep.slots a (.tail _ ha)⟩
    · have hrep' := h.free u hu
      simp only [update_of_ne hur]
      exact ⟨by simpa only [Kmem.modRecord, update_of_ne hur] using hrep'.numOfSlots,
        by simpa only [Kmem.modRecord, update_of_ne hur] using hrep'.numOfFreeSlots,
        by simpa only [Kmem.modRecord, update_of_ne hur] using hrep'.chain, hrep'.slots⟩
  · obtain ⟨u, hu, i, hi, hai, hnot⟩ := h.used a ha
    refine ⟨u, hu, i, hi, hai, ?_⟩
    by_cases hur : u = r
    · subst hur
      rw [hslots] at hnot
      simp only [update_self]
      exact fun hm => hnot (.tail _ hm)
    · simpa only [update_of_ne hur] using hnot
  · obtain ⟨u, hu, i, hi, hai, hnot⟩ := h.used c hc
    have : u = r := by
      rw [← slotAddr_header (halign u hu) hi, ← slotAddr_header (halign r hr) hj, ← hai, ← hcj]
    subst this
    rw [hslots] at hnot
    exact hnot (.head _)

/-- The pool with one more record, on any list. -/
theorem Pool.extend {k₁ : Kmem} {listed : List Nat} (h : Pool k V)
    (halign : ∀ r' ∈ V.records, blockSize ∣ r') (hra : blockSize ∣ r) (hr : r ∉ V.records)
    (hcaches : (k₁.cache, k₁.cacheHead, k₁.cacheTail) = (k.cache, k.cacheHead, k.cacheTail))
    (hold : ∀ u ∈ V.records, { k₁.record u with next := none } = { k.record u with next := none })
    (hnew : { k₁.record r with next := none } = newRecord r)
    (hf : Linked k₁.freeLink (some (slotAddr r 0)) (allSlots r))
    (hf' : ∀ x ∉ allSlots r, k₁.freeLink x = k.freeLink x)
    (hl : Linked (fun r => (k₁.record r).next) k₁.head listed)
    (ht : ∀ t, k₁.tail = some t → listed.getLast? = some t) (hsub : listed ⊆ V.records ++ [r]) :
    Pool k₁ { V with
      records := V.records ++ [r], listed, slots := update V.slots r (allSlots r) } := by
  have hrec : ∀ u ∈ V.records, u ≠ r := fun u hu he => hr (he ▸ hu)
  simp only [Prod.mk.injEq] at hcaches
  obtain ⟨h1, h2, h3⟩ := hcaches
  refine ⟨?_, hl, ht, hsub, ?_, fun u hu => ?_, fun a ha => ?_⟩
  · rw [h1, h2, h3]
    exact h.caches
  · refine List.nodup_append.2 ⟨h.nodup, List.nodup_singleton r, fun a ha b hb => ?_⟩
    rw [List.mem_singleton.1 hb]
    exact hrec a ha
  · rcases List.mem_append.1 hu with hu | hu
    · have hrep := h.free u hu
      have hur := hrec u hu
      have hfree : (k₁.record u).freeSlot = (k.record u).freeSlot :=
        (congrArg CacheRecord.freeSlot (hold u hu) :)
      simp only [update_of_ne hur]
      refine ⟨(congrArg CacheRecord.numOfSlots (hold u hu) :).trans hrep.numOfSlots,
        (congrArg CacheRecord.numOfFreeSlots (hold u hu) :).trans hrep.numOfFreeSlots, ?_,
        hrep.slots⟩
      rw [hfree]
      refine Seg.congr hrep.chain fun x hx => hf' x fun hm => hur ?_
      obtain ⟨i, hi, hxi⟩ := hrep.slots x hx
      obtain ⟨j, hj, hxj⟩ := mem_allSlots.1 hm
      rw [← slotAddr_header (halign u hu) hi, ← slotAddr_header hra hj, ← hxi, ← hxj]
    · obtain rfl := List.mem_singleton.1 hu
      have hfree : (k₁.record u).freeSlot = some (slotAddr u 0) :=
        (congrArg CacheRecord.freeSlot hnew :)
      simp only [update_self]
      refine ⟨(congrArg CacheRecord.numOfSlots hnew :), ?_, ?_, fun a ha => mem_allSlots.1 ha⟩
      · apply (congrArg CacheRecord.numOfFreeSlots hnew :).trans
        simp only [newRecord, allSlots, List.length_map, List.length_range]
      · rw [hfree]
        exact hf
  · obtain ⟨u, hu, i, hi, hai, hnot⟩ := h.used a ha
    refine ⟨u, List.mem_append_left _ hu, i, hi, hai, ?_⟩
    simpa only [update_of_ne (hrec u hu)] using hnot

/-- A new record is appended. -/
theorem Pool.grow {b : Buddy} {f : Nat → Ptr} {t : Nat} (h : Pool k V)
    (halign : ∀ r' ∈ V.records, blockSize ∣ r') (hra : blockSize ∣ r) (hr : r ∉ V.records)
    (ht : k.tail = some t) (hf : Linked f (some (slotAddr r 0)) (allSlots r))
    (hf' : ∀ x ∉ allSlots r, f x = k.freeLink x) :
    Pool (k.appendRecord b f t r) { V with
      records := V.records ++ [r], listed := V.listed ++ [r]
      slots := update V.slots r (allSlots r) } := by
  have hq : Queue (fun r => (k.record r).next) k.head (some t) V.listed :=
    ⟨h.listed, (h.tail t ht).symm⟩
  have htm : t ∈ V.records := h.subset (List.mem_of_getLast? (h.tail t ht))
  have htr : t ≠ r := fun he => hr (he ▸ htm)
  refine h.extend halign hra hr rfl (fun u hu => ?_) ?_ hf hf' ?_ (fun t' ht' => ?_)
    (List.append_subset.2 ⟨fun u hu => List.mem_append_left _ (h.subset hu),
      List.subset_append_right _ _⟩)
  · have hur : u ≠ r := fun he => hr (he ▸ hu)
    simp only [Kmem.appendRecord]
    by_cases hut : u = t
    · rw [hut, update_self, update_of_ne htr]
    · rw [update_of_ne hut, update_of_ne hur]
  · simp only [Kmem.appendRecord, update_of_ne htr.symm, update_self]
    rfl
  · refine Seg.congr (hq.append fun hm => hr (h.subset hm)).linked fun u hu => ?_
    simp only [Kmem.appendRecord]
    by_cases hut : u = t
    · rw [hut, update_self, update_of_ne htr, update_of_ne htr, update_self]
    · rw [update_of_ne hut]
      by_cases hur : u = r
      · rw [hur, update_self, update_self]
        rfl
      · rw [update_of_ne hur, update_of_ne hur, update_of_ne hut]
  · rw [List.getLast?_concat]
    exact ht'

/-- The state with a new record at `r`, the only one of the list. -/
def Kmem.restart (k : Kmem) (buddy : Buddy) (freeLink : Nat → Ptr) (r : Nat) : Kmem :=
  { k with
    buddy, record := update k.record r (newRecord r), freeLink, head := some r, tail := some r }

/-- A new record starts a new list. -/
theorem Pool.restart {b : Buddy} {f : Nat → Ptr} (h : Pool k V)
    (halign : ∀ r' ∈ V.records, blockSize ∣ r') (hra : blockSize ∣ r) (hr : r ∉ V.records)
    (hf : Linked f (some (slotAddr r 0)) (allSlots r))
    (hf' : ∀ x ∉ allSlots r, f x = k.freeLink x) :
    Pool (k.restart b f r) { V with
      records := V.records ++ [r], listed := [r], slots := update V.slots r (allSlots r) } := by
  refine h.extend halign hra hr rfl (fun u hu => ?_) ?_ hf hf' ?_ (fun t ht => ht)
    (List.subset_append_right _ _)
  · simp only [Kmem.restart, update_of_ne fun he : u = r => hr (he ▸ hu)]
  · simp only [Kmem.restart, update_self]
    rfl
  · refine ⟨rfl, ?_⟩
    simp only [Kmem.restart, update_self]
    rfl

theorem Pool.aligned {live : List (Nat × Nat)} (hb : Buddy.Inv k.buddy (V.records.map (·, 0) ++ live))
    (hstart : blockSize ∣ k.buddy.kernelStartAddr) (hr : r ∈ V.records) : blockSize ∣ r :=
  hb.page hstart (List.mem_append_left _ (List.mem_map.2 ⟨r, hr, rfl⟩))

theorem Pool.records_length {live : List (Nat × Nat)}
    (hb : Buddy.Inv k.buddy (V.records.map (·, 0) ++ live)) : V.records.length ≤ addrSpace := by
  have hle := hb.length_le
  simp only [List.length_append, List.length_map] at hle
  unfold addrSpace
  omega

/-- The view with a new cache. -/
def View.addCache (V : View) (c : Nat) : View :=
  { V with caches := V.caches ++ [c], lists := update V.lists c fun _ => [] }

/-- The slot that is taken off the chain becomes a cache. -/
theorem View.Tight.take {rest : List Nat} {j : Nat}
    (h : ∀ u ∈ V.records, ∀ j < slotNum, slotAddr u j ∉ V.slots u → slotAddr u j ∈ V.caches)
    (hbusy : ∀ u ∈ V.records, V.listed.head? ≠ some u →
      u = r ∨ ∃ j < slotNum, slotAddr u j ∈ V.caches)
    (hslots : V.slots r = c :: rest) (hj : j < slotNum) (hc : c = slotAddr r j) :
    (({ V with slots := update V.slots r rest } : View).addCache c).Tight := by
  refine ⟨fun u hu i hi hnot => ?_, fun u hu hhead => ?_⟩
  · apply List.mem_append.2
    by_cases hur : u = r
    · subst hur
      simp only [View.addCache, update_self] at hnot
      by_cases hic : slotAddr u i = c
      · exact .inr (List.mem_singleton.2 hic)
      · refine .inl (h u hu i hi fun hm => ?_)
        rw [hslots] at hm
        exact (List.mem_cons.1 hm).elim hic hnot
    · simp only [View.addCache, update_of_ne hur] at hnot
      exact .inl (h u hu i hi hnot)
  · rcases hbusy u hu hhead with rfl | ⟨i, hi, hm⟩
    · exact ⟨j, hj, List.mem_append_right _ (List.mem_singleton.2 hc.symm)⟩
    · exact ⟨i, hi, List.mem_append_left _ hm⟩

/-- When no record of the list has a free slot, every record has a cache. -/
theorem View.Tight.all_busy (h : V.Tight) (hfull : ∀ u ∈ V.listed, V.slots u = []) :
    ∀ u ∈ V.records, ∃ j < slotNum, slotAddr u j ∈ V.caches := by
  intro u hu
  by_cases hhead : V.listed.head? = some u
  · refine ⟨0, by decide, h.slots u hu 0 (by decide) ?_⟩
    rw [hfull u (List.mem_of_mem_head? hhead)]
    exact List.not_mem_nil
  · exact h.busy u hu hhead

/-- A creation has failed: the tail of the list of records is lost, or the list itself. -/
structure Failed (k k' : Kmem) (V V' : View) : Prop where
  state : ∃ head, k' = { k with head, tail := none }
  view : ∃ listed, V' = { V with listed }
  pool : Pool k' V'
  tight : V.Tight → V'.Tight

/-- `allocateSlot` fails without a trace but for the list of records. -/
theorem Pool.failed (h : Pool k V) (hfull : ∀ u ∈ V.listed, V.slots u = [])
    (hb : k.buddy.alloc 0 = (none, k.buddy))
    (hfind : CachePool.findRecord k addrSpace k.head = some none) :
    ∃ k' V', CachePool.allocateSlot k = some (none, k') ∧ Failed k k' V V' := by
  unfold CachePool.allocateSlot CachePool.createRecord
  simp only [hfind, hb, Option.bind_eq_bind, Option.bind_some]
  cases ht : k.tail with
  | none =>
    refine ⟨_, { V with listed := [] }, rfl, ⟨none, rfl⟩, ⟨[], rfl⟩, ⟨h.caches, rfl, fun t ht => ?_,
      List.nil_subset _, h.nodup, fun r hr => { h.free r hr with }, h.used⟩, fun htight =>
      ⟨htight.slots, fun u hu _ => htight.all_busy hfull u hu⟩⟩
    cases ht
  | some t =>
    have hq : Queue (fun r => (k.record r).next) k.head (some t) V.listed :=
      ⟨h.listed, (h.tail t ht).symm⟩
    have hnext : (k.record t).next = none := hq.tail_next
    have hsame : update k.record t { k.record t with next := none } = k.record := by
      rw [← hnext]
      exact update_eq_self t k.record
    refine ⟨_, V, rfl, ⟨k.head, ?_⟩, ⟨V.listed, rfl⟩, ⟨h.caches, ?_, fun t ht => ?_, h.subset,
      h.nodup, fun r hr => ?_, h.used⟩, id⟩
    · simp only [Kmem.modRecord, hsame]
    · simp only [Kmem.modRecord, hsame]
      exact h.listed
    · cases ht
    · simp only [Kmem.modRecord, hsame]
      exact { h.free r hr with }

/-- `allocateSlot` has taken the slot `c`; other users have the blocks `live`. -/
structure Taken (k k' : Kmem) (V V' : View) (live : List (Nat × Nat)) (c : Nat) : Prop where
  state : ∃ buddy record freeLink head tail, k' = { k with buddy, record, freeLink, head, tail }
  view : ∃ records listed slots, V' = { V with records, listed, slots }
  pool : Pool k' V'
  tight : V.Tight → (V'.addCache c).Tight
  unbroken : Unbroken k V → Unbroken k' V'
  records : V.records <+: V'.records
  new : c ∉ V.caches
  slot : ∃ r ∈ V'.records, ∃ j < slotNum, c = slotAddr r j ∧ c ∉ V'.slots r
  buddy : Buddy.Inv k'.buddy (V'.records.map (·, 0) ++ live)
  start : k'.buddy.kernelStartAddr = k.buddy.kernelStartAddr

/-- The slot is one of a record on the list. -/
theorem Pool.take_listed {live : List (Nat × Nat)} (h : Pool k V)
    (hb : Buddy.Inv k.buddy (V.records.map (·, 0) ++ live))
    (halign : ∀ r ∈ V.records, blockSize ∣ r) (hr : r ∈ V.records)
    (hfind : CachePool.findRecord k addrSpace k.head = some (some r))
    (hfree : (k.record r).freeSlot ≠ none) :
    ∃ c k' V', CachePool.allocateSlot k = some (some c, k') ∧ Taken k k' V V' live c := by
  obtain ⟨c, hc⟩ := Option.ne_none_iff_exists'.1 hfree
  obtain ⟨rest, hslots, -⟩ := Linked.cons_of_some (hc ▸ (h.free r hr).chain)
  obtain ⟨hpool, -, hnew, hrest, j, hj, hcj⟩ := h.take halign hr hslots
  refine ⟨c, _, _, ?_, ⟨k.buddy, _, k.freeLink, k.head, k.tail, rfl⟩,
    ⟨V.records, V.listed, _, rfl⟩, hpool, fun ht =>
      .take ht.slots (fun u hu hh => .inr (ht.busy u hu hh)) hslots hj hcj, id,
    List.prefix_refl _, hnew, ⟨r, hr, j, hj, hcj, ?_⟩, hb, rfl⟩
  · unfold CachePool.allocateSlot
    simp only [hfind, hc, Option.bind_eq_bind, Option.bind_some, pure]
    rfl
  · simpa only [update_self] using hrest

/-- The slot is the first one of a new record `r`, which the state `k₁` has. -/
theorem Pool.take_fresh {k₁ : Kmem} {b : Buddy} {listed : List Nat} {live : List (Nat × Nat)}
    (halign : ∀ u ∈ V.records ++ [r], blockSize ∣ u) (hfull : ∀ u ∈ V.listed, V.slots u = [])
    (h₁ : Pool k₁ { V with
      records := V.records ++ [r], listed, slots := update V.slots r (allSlots r) })
    (hstate : ∃ record freeLink head tail,
      k₁ = { k with buddy := b, record, freeLink, head, tail })
    (hunbroken : Unbroken k V → listed = V.records ++ [r] ∧ k₁.tail ≠ none)
    (hb : Buddy.Inv b ((V.records ++ [r]).map (·, 0) ++ live))
    (hstart : b.kernelStartAddr = k.buddy.kernelStartAddr) :
    (k₁.record r).freeSlot = some (slotAddr r 0) ∧ ∃ V',
      Taken k (k₁.modRecord r fun x => { x with
        freeSlot := k₁.freeLink (slotAddr r 0), numOfFreeSlots := x.numOfFreeSlots - 1 })
        V V' live (slotAddr r 0) := by
  have hrm : r ∈ V.records ++ [r] := List.mem_append_right _ (.head _)
  have hall : allSlots r = slotAddr r 0 :: (List.range' 1 30).map (slotAddr r) := by
    simp only [allSlots, List.range_eq_range', List.range'_succ, List.map_cons]
  have hself := (update_self r (allSlots r) V.slots).trans hall
  obtain ⟨hpool, hfree, hnew, hrest, j, hj, hcj⟩ := h₁.take halign hrm hself
  have hslots : V.Tight → ∀ u ∈ V.records ++ [r], ∀ i < slotNum,
      slotAddr u i ∉ update V.slots r (allSlots r) u → slotAddr u i ∈ V.caches := by
    intro ht u hu i hi hnot
    by_cases hur : u = r
    · subst hur
      rw [update_self] at hnot
      exact absurd (mem_allSlots.2 ⟨i, hi, rfl⟩) hnot
    · rw [update_of_ne hur] at hnot
      have hu' : u ∈ V.records := (List.mem_append.1 hu).resolve_right
        fun hm => hur (List.mem_singleton.1 hm)
      exact ht.slots u hu' i hi hnot
  have hbusy : V.Tight → ∀ u ∈ V.records ++ [r],
      u = r ∨ ∃ j < slotNum, slotAddr u j ∈ V.caches := fun ht u hu =>
    (List.mem_append.1 hu).symm.imp List.mem_singleton.1 (ht.all_busy hfull u)
  obtain ⟨record, freeLink, head, tail, rfl⟩ := hstate
  refine ⟨hfree, _, ⟨b, _, freeLink, head, tail, rfl⟩, ⟨V.records ++ [r], listed, _, rfl⟩, hpool,
    fun ht => .take (V := { V with
      records := V.records ++ [r], listed, slots := update V.slots r (allSlots r) })
      (hslots ht) (fun u hu _ => hbusy ht u hu) hself hj hcj, hunbroken, List.prefix_append _ _,
    hnew, ⟨r, hrm, j, hj, hcj, ?_⟩, hb, hstart⟩
  simpa only [update_self] using hrest

/-- A page is there for a new record. -/
theorem Pool.take_new {b : Buddy} {live : List (Nat × Nat)} (h : Pool k V)
    (halign : ∀ r ∈ V.records, blockSize ∣ r) (hstart : blockSize ∣ k.buddy.kernelStartAddr)
    (hfull : ∀ u ∈ V.listed, V.slots u = [])
    (hfind : CachePool.findRecord k addrSpace k.head = some none)
    (hbs : k.buddy.alloc 0 = (some r, b)) (hg : Buddy.SameGeom k.buddy b)
    (hb : Buddy.Inv b ((r, 0) :: (V.records.map (·, 0) ++ live))) :
    ∃ c k' V', CachePool.allocateSlot k = some (some c, k') ∧ Taken k k' V V' live c := by
  obtain ⟨f, he, hf, hf'⟩ := createRecord_spec hbs
  have hfresh : r ∉ V.records := fun hm => (List.nodup_cons.1 hb.1).1
    (List.mem_append_left _ (List.mem_map.2 ⟨r, hm, rfl⟩))
  have hra : blockSize ∣ r := hb.page (hg.start ▸ hstart) (.head _)
  have halign' : ∀ u ∈ V.records ++ [r], blockSize ∣ u := fun u hu => by
    rcases List.mem_append.1 hu with hu | hu
    · exact halign u hu
    · exact List.mem_singleton.1 hu ▸ hra
  have hb' : Buddy.Inv b ((V.records ++ [r]).map (·, 0) ++ live) := by
    apply hb.perm
    simp only [List.map_append, List.append_assoc]
    exact List.perm_middle.symm
  unfold CachePool.allocateSlot
  cases ht : k.tail with
  | some t =>
    obtain ⟨hfree, V', htaken⟩ := Pool.take_fresh halign' hfull
      (h.grow (b := b) halign hra hfresh ht hf hf') ⟨_, f, k.head, some r, rfl⟩
      (fun hu => ⟨by rw [hu.1], Option.some_ne_none r⟩) hb' hg.start
    refine ⟨_, _, V', ?_, htaken⟩
    simp only [hfind, he, ht, Option.bind_eq_bind, Option.bind_some, pure]
    change (((k.appendRecord b f t r).record r).freeSlot.bind _) = _
    rw [hfree]
    rfl
  | none =>
    obtain ⟨hfree, V', htaken⟩ := Pool.take_fresh halign' hfull
      (h.restart (b := b) halign hra hfresh hf hf') ⟨_, f, some r, some r, rfl⟩
      (fun hu => absurd ht hu.2) hb' hg.start
    refine ⟨_, _, V', ?_, htaken⟩
    simp only [hfind, he, ht, Option.bind_eq_bind, Option.bind_some, pure]
    change (((k.restart b f r).record r).freeSlot.bind _) = _
    rw [hfree]
    rfl

/-- `allocateSlot` takes a free slot, unless there is no page for a new record. -/
theorem Pool.allocateSlot {live : List (Nat × Nat)} (h : Pool k V)
    (hb : Buddy.Inv k.buddy (V.records.map (·, 0) ++ live))
    (hstart : blockSize ∣ k.buddy.kernelStartAddr) :
    (¬ k.Available ∧ ∃ k' V', CachePool.allocateSlot k = some (none, k') ∧ Failed k k' V V') ∨
    k.Available ∧ ∃ c k' V', CachePool.allocateSlot k = some (some c, k') ∧
      Taken k k' V V' live c := by
  have halign : ∀ r ∈ V.records, blockSize ∣ r := fun r hr => aligned hb hstart hr
  have hlen : V.listed.length ≤ addrSpace :=
    ((Linked.nodup h.listed).subperm h.subset).length_le.trans (records_length hb)
  have hfind := findRecord_eq h.listed hlen
  cases hr : V.listed.find? fun r => (k.record r).freeSlot ≠ none with
  | some r =>
    rw [hr] at hfind
    have hfree : (k.record r).freeSlot ≠ none := by simpa using List.find?_some hr
    exact .inr ⟨.inl (by rw [hfind]; simp),
      h.take_listed hb halign (h.subset (List.mem_of_find?_eq_some hr)) hfind hfree⟩
  | none =>
    rw [hr] at hfind
    have hfull : ∀ u ∈ V.listed, V.slots u = [] := fun u hu => by
      rw [List.find?_eq_none] at hr
      have hnone : (k.record u).freeSlot = none := by simpa using hr u hu
      exact Linked.nil_of_none (hnone ▸ (h.free u (h.subset hu)).chain)
    rcases hb.alloc 0 with hbn | ⟨r, b, hbs, hg, -, -, hinv⟩
    · refine .inl ⟨?_, h.failed hfull hbn hfind⟩
      unfold Kmem.Available
      rw [hfind, show k.buddy.alloc 0 = (none, k.buddy) from hbn]
      simp only [ne_eq, not_true_eq_false, or_self, not_false_eq_true]
    · exact .inr ⟨.inr (by rw [hbs]; exact Option.some_ne_none r),
        h.take_new halign hstart hfull hfind hbs hg hinv⟩

/-- The slots of a record without free ones are caches. -/
theorem Pool.available (h : Pool k V) (ht : V.Tight) (hlen : V.records.length ≤ addrSpace)
    (hne : V.listed ≠ []) (hcaches : V.caches.length < slotNum) : k.Available := by
  left
  have hlen' := ((Linked.nodup h.listed).subperm h.subset).length_le.trans hlen
  rw [findRecord_eq h.listed hlen']
  obtain ⟨r, l, hl⟩ := List.exists_cons_of_ne_nil hne
  have hr : r ∈ V.listed := hl ▸ .head _
  have hrep := h.free r (h.subset hr)
  intro hnone
  rw [Option.some.injEq, List.find?_eq_none] at hnone
  have hfull : V.slots r = [] := by
    have hfree : (k.record r).freeSlot = none := by simpa using hnone r hr
    exact Linked.nil_of_none (hfree ▸ hrep.chain)
  have hsub : allSlots r ⊆ V.caches := fun x hx => by
    obtain ⟨j, hj, rfl⟩ := mem_allSlots.1 hx
    refine ht.slots r (h.subset hr) j hj ?_
    rw [hfull]
    exact List.not_mem_nil
  have hnd : (allSlots r).Nodup := List.nodup_range.map fun _ _ => slotAddr_inj
  have := (hnd.subperm hsub).length_le
  simp only [allSlots, List.length_map, List.length_range] at this
  omega

/-! ## The constructor -/

/-- What the constructor stores in a cache besides its links. -/
def Cache.init (size : Nat) (ctor dtor : Ptr) (slabOrder objNum : Nat) : Cache where
  slotSize := size
  ctor
  dtor
  group := .KERNEL_OBJECT
  next := none
  prev := none
  slabsFull := none
  slabsPartial := none
  slabsFree := none
  shrink := 1
  slabSize := slabBytes slabOrder
  slabOrder
  objNum
  numOfSlabs := 0
  type := 0
  error := 0

/-- The cache `C` without slabs has been appended at `c`; other users have the blocks `live`. -/
structure Created (k k' : Kmem) (V V' : View) (live : List (Nat × Nat)) (c : Nat) (C : Cache) :
    Prop where
  pool : Pool k' V'
  tight : V.Tight → V'.Tight
  unbroken : Unbroken k V → Unbroken k' V'
  records : V.records <+: V'.records
  caches : V'.caches = V.caches ++ [c]
  new : c ∉ V.caches
  lists : V'.lists = update V.lists c fun _ => []
  chain : V'.chain = V.chain
  cache : (k'.cache c).unlinked = C
  other : ∀ a ≠ c, (k'.cache a).unlinked = (k.cache a).unlinked
  slab : k'.slab = k.slab
  buddy : Buddy.Inv k'.buddy (V'.records.map (·, 0) ++ live)
  start : k'.buddy.kernelStartAddr = k.buddy.kernelStartAddr

/-- The constructor appends the cache to the list of caches. -/
theorem Pool.construct {size o n : Nat} (h : Pool k V) (ctor dtor : Ptr) (hc : c ∉ V.caches)
    (hslot : ∃ r ∈ V.records, ∃ j < slotNum, c = slotAddr r j ∧ c ∉ V.slots r)
    (ho : Cache.getOrder size = some (o, n)) :
    ∃ k', Cache.construct k c size ctor dtor = some k' ∧ Pool k' (V.addCache c) ∧
      (∀ c' ≠ c, (k'.cache c').unlinked = (k.cache c').unlinked) ∧
      (k'.cache c).unlinked = Cache.init size ctor dtor o n ∧
      k'.slab = k.slab ∧ k'.buddy = k.buddy ∧ k'.tail = k.tail ∧
      k'.memoryBuffers = k.memoryBuffers ∧ k'.memBuffSlabs = k.memBuffSlabs := by
  have hq := h.caches
  have hused : ∀ a ∈ V.caches ++ [c], ∃ r ∈ V.records, ∃ j < slotNum, a = slotAddr r j ∧
      a ∉ V.slots r := fun a ha => by
    rcases List.mem_append.1 ha with ha | ha
    · exact h.used a ha
    · rwa [List.mem_singleton.1 ha]
  unfold Cache.construct
  cases ht : k.cacheTail with
  | none =>
    have hnil := (DQueue.tail_none hq).1 ht
    simp only [ho, Option.bind_eq_bind, Option.bind_some, pure]
    refine ⟨_, rfl, ⟨?_, h.listed, h.tail, h.subset, h.nodup,
      fun r hr => { h.free r hr with }, hused⟩,
      fun c' hc' => ?_, ?_, rfl, rfl, rfl, rfl, rfl⟩
    · simp [View.addCache, hnil, Kmem.modCache]
    · simp only [Kmem.modCache, update_of_ne hc']
    · simp only [Kmem.modCache, update_self, Cache.unlinked, Cache.init]
  | some t =>
    rw [ht] at hq
    have htm : t ∈ V.caches := List.mem_of_getLast? (DQueue.last hq).symm
    have htc : t ≠ c := fun he => hc (he ▸ htm)
    simp only [ho, Option.bind_eq_bind, Option.bind_some, pure]
    refine ⟨_, rfl, ⟨?_, h.listed, h.tail, h.subset, h.nodup,
      fun r hr => { h.free r hr with }, hused⟩,
      fun c' hc' => ?_, ?_, rfl, rfl, rfl, rfl, rfl⟩
    · refine DSeg.congr (DQueue.append hq hc) (fun a ha => ?_) fun a ha => ?_
      · by_cases hac : a = c
        · simp [Kmem.modCache, hac, htc.symm]
        · by_cases hat : a = t
          · simp [Kmem.modCache, hat, htc]
          · simp [Kmem.modCache, hac, hat]
      · by_cases hac : a = c
        · simp [Kmem.modCache, hac, htc.symm]
        · by_cases hat : a = t
          · simp [Kmem.modCache, hat, htc]
          · simp [Kmem.modCache, hac, hat]
    · by_cases hct : c' = t
      · simp [Kmem.modCache, hct, htc, Cache.unlinked]
      · simp only [Kmem.modCache, update_of_ne hc', update_of_ne hct]
    · simp only [Kmem.modCache, update_self, Cache.unlinked, Cache.init]

theorem create_available {size : Nat} {ctor dtor : Ptr}
    (h : kmem_cache_create k size ctor dtor = some (some c, k')) : k.Available := by
  unfold kmem_cache_create at h
  simp only [Option.bind_eq_bind] at h
  obtain ⟨⟨slot, k₁⟩, hslot, h⟩ := Option.bind_eq_some_iff.1 h
  cases slot with
  | none => cases h
  | some this => exact allocateSlot_available hslot

/-- `kmem_cache_create` appends a cache without slabs, unless there is no page for a new record. -/
theorem Pool.create {size o n : Nat} {live : List (Nat × Nat)} (h : Pool k V) (ctor dtor : Ptr)
    (hb : Buddy.Inv k.buddy (V.records.map (·, 0) ++ live))
    (hstart : blockSize ∣ k.buddy.kernelStartAddr) (ho : Cache.getOrder size = some (o, n)) :
    (¬ k.Available ∧ ∃ k' V', kmem_cache_create k size ctor dtor = some (none, k') ∧
      Failed k k' V V') ∨
    k.Available ∧ ∃ c k' V', kmem_cache_create k size ctor dtor = some (some c, k') ∧
      Created k k' V V' live c (Cache.init size ctor dtor o n) ∧
      k'.memoryBuffers = k.memoryBuffers ∧ k'.memBuffSlabs = k.memBuffSlabs := by
  unfold kmem_cache_create
  rcases h.allocateSlot hb hstart with ⟨ha, k', V', he, hf⟩ | ⟨ha, c, k₁, V₁, he, ht⟩
  · refine .inl ⟨ha, k', V', ?_, hf⟩
    simp only [he, Option.bind_eq_bind, Option.bind_some, pure]
  · obtain ⟨buddy, record, freeLink, head, tail, rfl⟩ := ht.state
    obtain ⟨records, listed, slots, rfl⟩ := ht.view
    obtain ⟨k', he', hpool', hother, hself, hslab, hk', htail, hbufs, hdescs⟩ :=
      ht.pool.construct ctor dtor ht.new ht.slot ho
    refine .inr ⟨ha, c, k', _, ?_, ⟨hpool', ht.tight, fun hu => ?_, ht.records, rfl, ht.new, rfl, rfl,
      hself, hother, hslab, ?_, ?_⟩, hbufs, hdescs⟩
    · simp only [he, he', Option.bind_eq_bind, Option.bind_some, pure]
    · unfold Unbroken
      rw [htail]
      exact ht.unbroken hu
    · rw [hk']
      exact ht.buddy
    · rw [hk']
      exact ht.start

/-! ## The new cache -/

theorem CacheRep.empty {ch : Nat → List Nat} (hfirst : ∀ g, (k.cache c).first g = none)
    (hnum : (k.cache c).numOfSlabs = 0)
    (hobj : 1 ≤ (k.cache c).objNum ∧ (k.cache c).objNum < endIndex) :
    CacheRep k c (fun _ => []) ch := by
  refine ⟨⟨⟨⟨fun g => ?_, fun _ _ _ ha => absurd ha List.not_mem_nil⟩,
    fun _ _ hs => absurd hs List.not_mem_nil⟩, fun _ _ hs => absurd hs List.not_mem_nil, hnum, hobj⟩,
    fun _ _ hs => absurd hs List.not_mem_nil⟩
  rw [hfirst g]
  exact .nil

namespace Created

variable {C : Cache} {size o n : Nat} {ctor dtor : Ptr} {live : List (Nat × Nat)}

theorem mem (h : Created k k' V V' live c C) {a : Nat} : a ∈ V'.caches ↔ a ∈ V.caches ∨ a = c := by
  rw [h.caches, List.mem_append, List.mem_singleton]

theorem ne (h : Created k k' V V' live c C) {a : Nat} (ha : a ∈ V.caches) : a ≠ c :=
  fun he => h.new (he ▸ ha)

theorem frame (h : Created k k' V V' live c C) : Frame k k' V V' fun _ => False :=
  ⟨fun _ ha _ => h.mem.2 (.inl ha), fun a ha _ => h.other a (h.ne ha),
    fun a ha _ => by rw [h.lists, update_of_ne (h.ne ha)], fun _ _ _ _ _ => by rw [h.slab],
    fun _ _ _ _ _ => by rw [h.chain]⟩

/-- The kinds of the old caches. -/
theorem layout (h : Created k k' V V' live c C) {a : Nat} (ha : a ∈ V.caches) :
    (k'.cache a).layout = (k.cache a).layout :=
  (congrArg Cache.layout (h.other a (h.ne ha)) :)

theorem slabs (h : Created k k' V V' live c C) : V'.slabs c = [] := by
  unfold View.slabs
  rw [h.lists, update_self]
  rfl

/-- The new cache has the invariant, if it has a kind. -/
theorem whole (h : Created k k' V V' (V.caches.flatMap (V.slabBlocks k) ++ extra) c C)
    (hk : k.Whole V extra) (hfirst : ∀ g, C.first g = none) (hnum : C.numOfSlabs = 0)
    (hobj : 1 ≤ C.objNum ∧ C.objNum < endIndex) (hclasses : Classes k' V')
    (hbufs : ∀ i c, k'.memoryBuffers i = some c → c ∈ V'.caches)
    (hdescs : k'.memBuffSlabs = k.memBuffSlabs) : k'.Whole V' extra := by
  have hc := h.cache
  have hinv : k'.Inv V' extra := by
    refine hk.of_frame h.frame (DQueue.nodup h.pool.caches) hclasses
      (fun i d hd _ => ⟨hdescs ▸ hd, not_false⟩) (fun a ha => ?_) ?_ h.start
    · rcases h.mem.1 ha with ha | rfl
      · exact .inl ⟨ha, not_false⟩
      · refine .inr ⟨?_, h.slabs⟩
        rw [h.lists, update_self]
        refine .empty (fun g => ?_) ?_ ?_
        · have := hfirst g
          rw [← hc] at this
          cases g <;> exact this
        · rw [← hnum, ← hc]
          rfl
        · rw [← hc] at hobj
          exact hobj
    · have hnil : V'.slabBlocks k' c = [] := by
        unfold View.slabBlocks
        rw [h.slabs]
        rfl
      have hblocks : V'.caches.flatMap (V'.slabBlocks k') = V.caches.flatMap (V.slabBlocks k) := by
        rw [h.caches, List.flatMap_append, List.flatMap_cons, hnil, List.flatMap_nil,
          List.append_nil, List.append_nil]
        exact List.flatMap_congr fun a ha => h.frame.slabBlocks ha not_false
      unfold View.blocks
      rw [hblocks, List.append_assoc]
      exact h.buddy
  exact { hinv with
    pool := h.pool
    tight := h.tight hk.tight
    buffers := hbufs
    descriptors := fun i d hd => h.mem.2 (.inl (hk.descriptors i d (hdescs ▸ hd))) }

/-- A new object cache. -/
theorem isObject (h : Created k k' V V' live c
    (Cache.init size ctor dtor o (Cache.slotsOf size o))) (hsize : 1 ≤ size) (ho : o ≤ 18) :
    (k'.cache c).IsObject := by
  have hbytes : (Cache.init size ctor dtor o (Cache.slotsOf size o)).slabSize =
      2 ^ o * blockSize := by
    simp only [Cache.init, Cache.slabBytes_eq ho]
  refine Cache.IsObject.congr (C := Cache.init size ctor dtor o (Cache.slotsOf size o))
    ⟨rfl, hbytes, hsize, ?_⟩ ?_
  · rw [hbytes]
    exact Cache.slotsOf_fits
  · rw [← h.cache]
    rfl

theorem object (h : Created k k' V V' (V.caches.flatMap (V.slabBlocks k) ++ extra) c
      (Cache.init size ctor dtor o (Cache.slotsOf size o))) (hk : k.Whole V extra) (hsize : 1 ≤ size)
    (ho : o ≤ 18) (hobj : 1 ≤ Cache.slotsOf size o ∧ Cache.slotsOf size o < endIndex)
    (hbufs : k'.memoryBuffers = k.memoryBuffers) (hdescs : k'.memBuffSlabs = k.memBuffSlabs) :
    k'.Whole V' extra := by
  refine h.whole hk (fun g => by cases g <;> rfl) rfl hobj ⟨fun a ha => ?_, fun i a hi _ => ?_,
    fun i d hi _ => ?_⟩ (fun i a hi => h.mem.2 (.inl (hk.buffers i a (hbufs ▸ hi)))) hdescs
  · rw [hbufs]
    rcases h.mem.1 ha with ha | rfl
    · exact (hk.classes.kind a ha).imp_left fun ho => ho.congr (h.layout ha)
    · exact .inl (h.isObject hsize ho)
  · rw [hbufs] at hi
    have ha := hk.buffers i a hi
    obtain ⟨hlt, hb⟩ := hk.classes.buffer i a hi ha
    exact ⟨hlt, hb.congr (h.layout ha)⟩
  · rw [hdescs] at hi
    have hd := hk.descriptors i d hi
    obtain ⟨hlt, ho, horder, hs⟩ := hk.classes.descriptor i d hi hd
    obtain ⟨-, h2, -, h4, -⟩ := Cache.layout_eq (h.layout hd)
    exact ⟨hlt, ho.congr (h.layout hd), h4.trans horder, h2.trans hs⟩

end Created

namespace Failed

theorem frame (h : Failed k k' V V') : Frame k k' V V' fun _ => False := by
  obtain ⟨head, rfl⟩ := h.state
  obtain ⟨listed, rfl⟩ := h.view
  exact ⟨fun _ ha _ => ha, fun _ _ _ => rfl, fun _ _ _ => rfl, fun _ _ _ _ _ => rfl,
    fun _ _ _ _ _ => rfl⟩

/-- The caches stay. -/
theorem caches (h : Failed k k' V V') : V'.caches = V.caches ∧ k'.cache = k.cache ∧
    k'.memoryBuffers = k.memoryBuffers ∧ k'.memBuffSlabs = k.memBuffSlabs ∧ k'.calls = k.calls := by
  obtain ⟨head, rfl⟩ := h.state
  obtain ⟨listed, rfl⟩ := h.view
  exact ⟨rfl, rfl, rfl, rfl, rfl⟩

/-- A failed creation keeps the invariant. -/
theorem whole (h : Failed k k' V V') (hk : k.Whole V extra) : k'.Whole V' extra := by
  have hf := h.frame
  have hpool := h.pool
  have htight := h.tight hk.tight
  obtain ⟨head, rfl⟩ := h.state
  obtain ⟨listed, rfl⟩ := h.view
  have hinv := hk.of_frame hf hk.nodup { hk.classes with } (fun i d hd _ => ⟨hd, not_false⟩)
    (fun a ha => .inl ⟨ha, not_false⟩) hk.buddy rfl
  exact { hinv with
    pool := hpool
    tight := htight
    buffers := hk.buffers
    descriptors := hk.descriptors }

end Failed

/-- The blocks of the records, and those of slabs and other users. -/
theorem Kmem.Whole.pool_buddy (h : k.Whole V extra) : Buddy.Inv k.buddy
    (V.records.map (·, 0) ++ (V.caches.flatMap (V.slabBlocks k) ++ extra)) := by
  rw [← List.append_assoc]
  exact h.buddy

/-- `kmem_cache_create` on the whole slab allocator. -/
theorem Kmem.Whole.create {size o n : Nat} (h : k.Whole V extra) (ctor dtor : Ptr)
    (ho : Cache.getOrder size = some (o, n)) :
    (¬ k.Available ∧ ∃ k' V', kmem_cache_create k size ctor dtor = some (none, k') ∧
      Failed k k' V V') ∨
    k.Available ∧ ∃ c k' V', kmem_cache_create k size ctor dtor = some (some c, k') ∧
      Created k k' V V' (V.caches.flatMap (V.slabBlocks k) ++ extra) c
        (Cache.init size ctor dtor o n) ∧
      k'.memoryBuffers = k.memoryBuffers ∧ k'.memBuffSlabs = k.memBuffSlabs :=
  h.pool.create ctor dtor h.pool_buddy h.start ho

/-- A new cache for objects of `size` bytes, whose slabs have at most `2 ^ 18` pages. -/
theorem Kmem.Whole.create_object {size : Nat} (h : k.Whole V extra) (ctor dtor : Ptr)
    (hsize : 1 ≤ size) (hsize' : size + 76 ≤ 2 ^ 18 * blockSize) :
    (¬ k.Available ∧ ∃ k' V', kmem_cache_create k size ctor dtor = some (none, k') ∧
      Failed k k' V V') ∨
    k.Available ∧ ∃ c k' V' o, kmem_cache_create k size ctor dtor = some (some c, k') ∧
      k'.Whole V' extra ∧
      Created k k' V V' (V.caches.flatMap (V.slabBlocks k) ++ extra) c
        (Cache.init size ctor dtor o (Cache.slotsOf size o)) ∧ o ≤ 18 ∧
      Cache.getOrder size = some (o, Cache.slotsOf size o) ∧
      k'.memoryBuffers = k.memoryBuffers ∧ k'.memBuffSlabs = k.memBuffSlabs := by
  obtain ⟨o, ho, hpos, -, hprev⟩ := Cache.getOrder_spec (hsize'.trans (by decide))
  have hle := Cache.order_le hsize' hprev
  have hobj : 1 ≤ Cache.slotsOf size o ∧ Cache.slotsOf size o < endIndex :=
    ⟨hpos, (Cache.slotsOf_le hprev).trans_lt (by decide)⟩
  rcases h.create ctor dtor ho with hfail | ⟨ha, c, k', V', he, hc, hb, hd⟩
  · exact .inl hfail
  · exact .inr ⟨ha, c, k', V', o, he, hc.object h hsize hle hobj hb hd, hc, hle, ho, hb, hd⟩

end SlabKernel
