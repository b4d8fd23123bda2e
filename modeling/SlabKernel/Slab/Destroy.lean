import SlabKernel.Buddy.Teardown
import SlabKernel.Slab.Create

/-!
# Shrinking and destroying caches

The loops over the slabs of an object cache give their blocks back one by one
(`deallocSlabGroup_spec`, `shrinkLoop_spec`); those of a buffer cache also give the headers back to
their cache (`Doomed.dealloc`). `kmem_cache_destroy` gives all slabs of a cache back, takes the cache
off the list of caches (`unlinkCache_spec`) and puts its slot in front of the free slots of its
record (`Pool.release`); a record without caches goes back too, unless it is the first one
(`Pool.drop`). A record that failed creations have taken off the list cannot go back: its search runs
into the null at the end (`findPrev_none`).
-/

namespace SlabKernel

open Function (update update_self update_of_ne update_eq_self)
open PtrList

variable {k k' : Kmem} {V V' : View} {extra live : List (Nat × Nat)} {c r s fuel : Nat} {p : Ptr}
  {l : List Nat}

/-! ## Giving slabs back -/

/-- The slab `s` of the object cache `c`. -/
structure Page (k : Kmem) (c s : Nat) : Prop where
  owner : (k.slab s).owner = some c
  mem : (k.slab s).mem ≠ none

/-- The headers in `l` are in pages that have been given back. -/
def Kmem.disown (k : Kmem) (l : List Nat) : Kmem :=
  { k with slab := fun s => if s ∈ l then { k.slab s with owner := none } else k.slab s }

section
variable {u : Nat}

@[simp] theorem Kmem.disown_nil : k.disown [] = k := rfl

@[simp] theorem Kmem.disown_next : ((k.disown l).slab u).next = (k.slab u).next := by
  simp only [disown]
  split <;> rfl

@[simp] theorem Kmem.disown_mem : ((k.disown l).slab u).mem = (k.slab u).mem := by
  simp only [disown]
  split <;> rfl

theorem Kmem.disown_of_notMem (hu : u ∉ l) : (k.disown l).slab u = k.slab u := if_neg hu

theorem Kmem.disown_append {l' : List Nat} : (k.disown l).disown l' = k.disown (l ++ l') := by
  unfold disown
  congr 1
  funext u
  by_cases hl : u ∈ l
  · simp [hl]
  · simp [hl]

theorem Kmem.disown_singleton :
    (k.modSlab s fun x => { x with owner := none }) = k.disown [s] := by
  unfold disown modSlab
  congr 1
  funext u
  by_cases hus : u = s
  · simp [hus]
  · simp [hus]

end

/-- The calls of the destructor come before the slab is given back. -/
theorem destroySlab_eq {m : Nat} (howner : (k.slab s).owner = some c)
    (hm : (k.slab s).mem = some m) :
    Slab.destroySlab k s =
      if (k.cache c).type = 0 then
        (({ k with calls := k.calls ++ (k.cache c).callsOn (k.cache c).dtor m } : Kmem).free (some s)
          (k.cache c).slabOrder).bind fun k' => some (k'.disown [s])
      else
        (({ k with calls := k.calls ++ (k.cache c).callsOn (k.cache c).dtor m } : Kmem).free (some m)
          (k.cache c).slabOrder).bind fun k' =>
          (k.memBuffSlabs (CachePool.getPowerOfTwo (k.cache c).slotSize)).bind fun slabCache =>
            Cache.cacheFree k' slabCache (some s) := by
  unfold Slab.destroySlab Cache.callsOn
  simp only [howner, hm, Option.bind_eq_bind, Option.bind_some, Option.pure_def,
    Kmem.disown_singleton]
  cases (k.cache c).dtor with
  | none =>
    simp only [Kmem.free, Option.bind_map, Option.elim_none, List.append_nil]
    rfl
  | some dtor =>
    simp only [Kmem.free, Option.bind_map, Option.elim_some]
    rfl

/-- The calls of the destructor on the objects of the slab `s` of the cache `c`. -/
def Kmem.destructed (k : Kmem) (c s : Nat) : List (Nat × Nat) :=
  (k.cache c).callsOn (k.cache c).dtor ((k.slab s).mem.getD 0)

theorem Kmem.destructed_disown : (k.disown l).destructed c = k.destructed c := by
  funext u
  unfold destructed
  rw [disown_mem]
  rfl

theorem destroySlab_object {b : Buddy} {n : Int} (ho : (k.cache c).IsObject) (hs : Page k c s)
    (hb : k.buddy.free (some s) (k.cache c).slabOrder = some (n, b)) :
    Slab.destroySlab k s =
      some { k.disown [s] with buddy := b, calls := k.calls ++ k.destructed c s } := by
  obtain ⟨m, hm⟩ := Option.ne_none_iff_exists'.1 hs.mem
  rw [destroySlab_eq hs.owner hm, if_pos ho.type]
  simp only [Kmem.free, hb, Option.map_some, Option.bind_some, Kmem.destructed, hm, Option.getD_some]
  rfl

/-- The other slabs stay. -/
theorem Page.disown (h : Page k c s) (hs : s ∉ l) : Page (k.disown l) c s := by
  have hself : (k.disown l).slab s = k.slab s := Kmem.disown_of_notMem hs
  exact ⟨hself ▸ h.owner, hself ▸ h.mem⟩

/-- `deallocSlabGroup` gives the blocks of a list back. -/
theorem deallocSlabGroup_spec {b : Buddy} (h : Linked (fun s => (k.slab s).next) p l)
    (hl : l.length ≤ fuel) (ho : (k.cache c).IsObject) (hs : ∀ s ∈ l, Page k c s)
    (hb : k.buddy.freeAll (l.map (·, (k.cache c).slabOrder)) = some b) :
    Cache.deallocSlabGroup fuel p k =
      some { k.disown l with buddy := b, calls := k.calls ++ l.flatMap (k.destructed c) } := by
  induction l generalizing k p fuel with
  | nil =>
    obtain rfl : p = none := h
    obtain rfl : k.buddy = b := Option.some.inj hb
    rw [List.flatMap_nil, List.append_nil]
    cases fuel <;> rfl
  | cons s l ih =>
    have hnd := List.nodup_cons.1 (Linked.nodup h)
    obtain ⟨rfl, h⟩ := h
    cases fuel with
    | zero => exact absurd hl (Nat.not_succ_le_zero _)
    | succ fuel =>
      obtain ⟨⟨n, b₁⟩, hb₁, hb⟩ := Option.bind_eq_some_iff.1 hb
      have he₁ := destroySlab_object ho (hs s (.head _)) hb₁
      have hne : ∀ u ∈ l, u ∉ [s] := fun u hu hus => hnd.1 (List.mem_singleton.1 hus ▸ hu)
      have he := ih (k := { k.disown [s] with
          buddy := b₁, calls := k.calls ++ k.destructed c s }) (p := (k.slab s).next)
        (Seg.congr h fun u _ => Kmem.disown_next) (Nat.le_of_succ_le_succ hl) ho
        (fun u hu => { (hs u (.tail _ hu)).disown (hne u hu) with }) hb
      unfold Cache.deallocSlabGroup
      simp only [he₁, Option.bind_eq_bind, Option.bind_some, List.flatMap_cons]
      have hcalls : l.flatMap (k.destructed c) = l.flatMap ((k.disown [s]).destructed c) := by
        rw [Kmem.destructed_disown]
      have hdisown : k.disown (s :: l) = (k.disown [s]).disown l :=
        (Kmem.disown_append (l := [s])).symm
      rw [← List.append_assoc, hcalls, hdisown]
      exact he

/-- `cacheShrink` gives the blocks of the list back and counts their pages. -/
theorem shrinkLoop_spec {b : Buddy} (fuel count : Nat) (h : Linked (fun s => (k.slab s).next) p l)
    (hl : l.length ≤ fuel) (ho : (k.cache c).IsObject) (hs : ∀ s ∈ l, Page k c s)
    (hnum : l.length ≤ (k.cache c).numOfSlabs) (hnum' : (k.cache c).numOfSlabs < 2 ^ 64)
    (hb : k.buddy.freeAll (l.map (·, (k.cache c).slabOrder)) = some b) :
    Cache.shrinkLoop c fuel p count k =
      some (count + l.length * 2 ^ (k.cache c).slabOrder,
        { (k.modCache c fun x => { x with numOfSlabs := x.numOfSlabs - l.length }).disown l with
          buddy := b, calls := k.calls ++ l.flatMap (k.destructed c) }) := by
  induction l generalizing k p fuel count with
  | nil =>
    obtain rfl : p = none := h
    obtain rfl : k.buddy = b := Option.some.inj hb
    have hself : (k.modCache c fun x => { x with numOfSlabs := x.numOfSlabs - 0 }) = k := by
      unfold Kmem.modCache
      exact congrArg (fun f => { k with cache := f }) (update_eq_self c k.cache)
    cases fuel <;> simp only [Cache.shrinkLoop, List.length_nil, Nat.zero_mul, Nat.add_zero, hself,
      Kmem.disown_nil, List.flatMap_nil, List.append_nil]
  | cons s l ih =>
    have hnd := List.nodup_cons.1 (Linked.nodup h)
    obtain ⟨rfl, h⟩ := h
    cases fuel with
    | zero => exact absurd hl (Nat.not_succ_le_zero _)
    | succ fuel =>
      rw [List.length_cons] at hnum
      let k₁ := k.modCache c fun x => { x with numOfSlabs := sub64 x.numOfSlabs 1 }
      have hc₁ : k₁.cache c = { k.cache c with numOfSlabs := (k.cache c).numOfSlabs - 1 } := by
        simp only [k₁, Kmem.modCache, update_self]
        rw [sub64_of_le (by omega) (by omega)]
      have ho₁ : (k₁.cache c).IsObject := ho.congr (by rw [hc₁]; rfl)
      have hs₁ : ∀ u ∈ s :: l, Page k₁ c u := fun u hu => { hs u hu with }
      have horder : (k₁.cache c).slabOrder = (k.cache c).slabOrder := by rw [hc₁]
      obtain ⟨⟨n, b₁⟩, hb₁, hb⟩ := Option.bind_eq_some_iff.1 hb
      have he₁ : Slab.destroySlab k₁ s = some { k₁.disown [s] with
          buddy := b₁, calls := k₁.calls ++ k₁.destructed c s } :=
        destroySlab_object ho₁ (hs₁ s (.head _)) (by rw [horder]; exact hb₁)
      have hdestructed : k₁.destructed c = k.destructed c := by
        unfold Kmem.destructed
        rw [hc₁]
        rfl
      have hne : ∀ u ∈ l, u ∉ [s] := fun u hu hus => hnd.1 (List.mem_singleton.1 hus ▸ hu)
      let k₂ : Kmem := { k₁.disown [s] with
        buddy := b₁, calls := k₁.calls ++ k₁.destructed c s }
      have hc₂ : k₂.cache c = k₁.cache c := rfl
      have hdestructed₂ : k₂.destructed c = k.destructed c :=
        (Kmem.destructed_disown (k := k₁)).trans hdestructed
      have he := ih (k := k₂) (p := (k.slab s).next) fuel (count + 2 ^ (k.cache c).slabOrder)
        (Seg.congr h fun u _ => Kmem.disown_next) (Nat.le_of_succ_le_succ hl) ho₁
        (fun u hu => { (hs₁ u (.tail _ hu)).disown (hne u hu) with })
        (by simp only [hc₂, hc₁]; omega) (by simp only [hc₂, hc₁]; omega)
        (by rw [hc₂, horder]; exact hb)
      have hblocks : (k₁.cache c).slabSize / blockSize = 2 ^ (k.cache c).slabOrder := by
        rw [ho₁.slabSize, horder]
        exact Nat.mul_div_cancel _ (by decide)
      have howner : (k₁.slab s).owner = some c := (hs₁ s (.head _)).owner
      unfold Cache.shrinkLoop
      simp only [k₁] at hblocks he₁ he hc₁ horder howner
      simp only [howner, hblocks, he₁, Option.bind_eq_bind, Option.bind_some]
      apply he.trans
      have hsub : sub64 (k.cache c).numOfSlabs 1 - l.length =
          (k.cache c).numOfSlabs - (s :: l).length := by
        rw [sub64_of_le (by omega) (by omega), List.length_cons]
        omega
      have hcount : count + 2 ^ (k.cache c).slabOrder + l.length * 2 ^ (k.cache c).slabOrder =
          count + (s :: l).length * 2 ^ (k.cache c).slabOrder := by
        rw [Nat.add_assoc, List.length_cons, Nat.succ_mul, Nat.add_comm (l.length * _)]
      have hslab : (k₂.disown l).slab = (k.disown (s :: l)).slab :=
        (congrArg Kmem.slab (Kmem.disown_append (k := k) (l := [s])) :)
      have horder₂ : (k₂.cache c).slabOrder = (k.cache c).slabOrder := horder
      have hcalls : k₂.calls ++ l.flatMap (k.destructed c) =
          k.calls ++ (s :: l).flatMap (k.destructed c) := by
        rw [List.flatMap_cons, ← hdestructed, ← List.append_assoc]
        rfl
      simp only [Option.some.injEq, Prod.mk.injEq, Kmem.mk.injEq, true_and, horder₂, hdestructed₂]
      refine ⟨hcount, hslab, ?_, rfl, rfl, rfl, rfl, rfl, rfl, rfl, rfl, hcalls⟩
      simp only [k₂, k₁, Kmem.disown, Kmem.modCache, update_self, Function.update_idem, hsub]

/-- The blocks that `k'` has no longer have been given back, each once and with its order. -/
def Returned (k k' : Kmem) (V V' : View) : Prop :=
  ∃ l, (V.blocks k).Perm (l ++ V'.blocks k') ∧ k.buddy.freeAll l = some k'.buddy

theorem Returned.trans {k'' : Kmem} {V'' : View} (h : Returned k k' V V')
    (h' : Returned k' k'' V' V'') : Returned k k'' V V'' := by
  obtain ⟨l, hp, hb⟩ := h
  obtain ⟨l', hp', hb'⟩ := h'
  refine ⟨l ++ l', ?_, Buddy.freeAll_append hb hb'⟩
  rw [List.append_assoc]
  exact hp.trans (hp'.append_left l)

/-! ## The list of caches -/

/-- The last node is the tail. -/
theorem DQueue.tail_of_next {next prev : Nat → Ptr} {head tail : Ptr} {a : Nat}
    (h : DQueue next prev head tail l) (ha : a ∈ l) (hn : next a = none) : tail = some a := by
  obtain ⟨l₁, l₂, rfl⟩ := List.append_of_mem ha
  obtain ⟨q, -, -, h₂⟩ := seg_append.1 h.seg
  rw [hn] at h₂
  rw [DQueue.last h, Linked.nil_of_none h₂, List.getLast?_concat]

theorem modCache_prev (k : Kmem) (n : Nat) (v : Ptr) (a : Nat) :
    ((k.modCache n fun x => { x with prev := v }).cache a).next = (k.cache a).next ∧
    ((k.modCache n fun x => { x with prev := v }).cache a).prev =
      update (fun c => (k.cache c).prev) n v a ∧
    ((k.modCache n fun x => { x with prev := v }).cache a).unlinked = (k.cache a).unlinked := by
  by_cases ha : a = n
  · subst ha
    simp [Kmem.modCache, Cache.unlinked]
  · simp only [Kmem.modCache, update_of_ne ha, and_self]

theorem modCache_next (k : Kmem) (n : Nat) (v : Ptr) (a : Nat) :
    ((k.modCache n fun x => { x with next := v }).cache a).next =
      update (fun c => (k.cache c).next) n v a ∧
    ((k.modCache n fun x => { x with next := v }).cache a).prev = (k.cache a).prev ∧
    ((k.modCache n fun x => { x with next := v }).cache a).unlinked = (k.cache a).unlinked := by
  by_cases ha : a = n
  · subst ha
    simp [Kmem.modCache, Cache.unlinked]
  · simp only [Kmem.modCache, update_of_ne ha, and_self]

/-- `deallocateSlot` takes the cache off the list of caches. -/
theorem unlinkCache_spec (h : DQueue (fun c => (k.cache c).next) (fun c => (k.cache c).prev)
    k.cacheHead k.cacheTail l) (hc : c ∈ l) :
    ∃ cache cacheHead cacheTail,
      CachePool.unlinkCache k c = some { k with cache, cacheHead, cacheTail } ∧
      DQueue (fun c => (cache c).next) (fun c => (cache c).prev) cacheHead cacheTail (l.erase c) ∧
      ∀ a, (cache a).unlinked = (k.cache a).unlinked := by
  have hu := DQueue.unlink h hc
  have hhead : (k.cache c).prev = none → k.cacheHead = some c :=
    (DList.prev_none ⟨_, h⟩ hc).1
  have htail : (k.cache c).next = none → k.cacheTail = some c := DQueue.tail_of_next h hc
  unfold CachePool.unlinkCache
  cases hp : (k.cache c).prev with
  | none =>
    simp only [hhead hp, Option.bind_eq_bind, Option.bind_some]
    cases hn : (k.cache c).next with
    | none =>
      rw [hp, hn] at hu
      exact ⟨k.cache, none, none, rfl, hu, fun _ => rfl⟩
    | some n =>
      rw [hp, hn] at hu
      have hm := modCache_prev k n none
      exact ⟨_, _, _, rfl, DSeg.congr hu (fun a _ => (hm a).1) fun a _ => (hm a).2.1,
        fun a => (hm a).2.2⟩
  | some p =>
    cases hn : (k.cache c).next with
    | none =>
      simp only [htail hn, hp, Option.bind_eq_bind, Option.bind_some]
      rw [hp, hn] at hu
      have hm := modCache_next k p none
      exact ⟨_, _, _, rfl, DSeg.congr hu (fun a _ => (hm a).1) fun a _ => (hm a).2.1,
        fun a => (hm a).2.2⟩
    | some n =>
      rw [hp, hn] at hu
      have hm := modCache_next k p (some n)
      have hm' := modCache_prev (k.modCache p fun x => { x with next := some n }) n (some p)
      refine ⟨_, _, _, rfl, DSeg.congr hu (fun a _ => (hm' a).1.trans (hm a).1) fun a _ => ?_,
        fun a => (hm' a).2.2.trans (hm a).2.2⟩
      apply (hm' a).2.1.trans
      exact congrFun (congrArg (fun f => update f n (some p)) (funext fun b => (hm b).2.1)) a

/-! ## Records -/

/-- The slot of a cache becomes the first free one of its record. -/
theorem Pool.release {j : Nat} {cache : Nat → Cache} {cacheHead cacheTail : Ptr} (h : Pool k V)
    (halign : ∀ r ∈ V.records, blockSize ∣ r) (hr : r ∈ V.records) (hj : j < slotNum)
    (hcj : c = slotAddr r j) (hnot : c ∉ V.slots r)
    (hq : DQueue (fun c => (cache c).next) (fun c => (cache c).prev) cacheHead cacheTail
      (V.caches.erase c)) :
    Pool (({ k with
          cache
          cacheHead
          cacheTail
          freeLink := update k.freeLink c (k.record r).freeSlot } : Kmem).modRecord r fun x =>
        { x with freeSlot := some c, numOfFreeSlots := x.numOfFreeSlots + 1 })
      { V with caches := V.caches.erase c, slots := update V.slots r (c :: V.slots r) } := by
  refine ⟨hq, ?_, h.tail, h.subset, h.nodup, fun u hu => ?_, fun a ha => ?_⟩
  · refine Seg.congr h.listed fun u _ => ?_
    simp only [Kmem.modRecord]
    by_cases hur : u = r
    · rw [hur, update_self]
    · rw [update_of_ne hur]
  · have hrep := h.free u hu
    by_cases hur : u = r
    · subst hur
      simp only [update_self]
      refine ⟨?_, ?_, ?_, fun a ha => ?_⟩
      · simpa only [Kmem.modRecord, update_self] using hrep.numOfSlots
      · simp only [Kmem.modRecord, update_self, hrep.numOfFreeSlots, List.length_cons]
      · simp only [Kmem.modRecord, update_self]
        exact Linked.push hrep.chain hnot
      · rcases List.mem_cons.1 ha with rfl | ha
        · exact ⟨j, hj, hcj⟩
        · exact hrep.slots a ha
    · simp only [update_of_ne hur]
      refine ⟨?_, ?_, ?_, hrep.slots⟩
      · simpa only [Kmem.modRecord, update_of_ne hur] using hrep.numOfSlots
      · simpa only [Kmem.modRecord, update_of_ne hur] using hrep.numOfFreeSlots
      · simp only [Kmem.modRecord, update_of_ne hur]
        refine Seg.update hrep.chain (fun hm => hur ?_) _
        obtain ⟨i, hi, hci⟩ := hrep.slots c hm
        rw [← slotAddr_header (halign u hu) hi, ← slotAddr_header (halign r hr) hj, ← hci, ← hcj]
  · obtain ⟨u, hu, i, hi, hai, hna⟩ := h.used a (List.mem_of_mem_erase ha)
    refine ⟨u, hu, i, hi, hai, ?_⟩
    have hac : a ≠ c := ((DQueue.nodup h.caches).mem_erase_iff.1 ha).1
    by_cases hur : u = r
    · subst hur
      simp only [update_self, List.mem_cons, not_or]
      exact ⟨hac, hna⟩
    · simpa only [update_of_ne hur] using hna

/-- `destroyRecord` finds the record before `r`. -/
theorem findPrev_eq {curr : Ptr} {l₁ l₂ : List Nat} (fuel : Nat) (prev : Ptr)
    (h : Linked (fun r => (k.record r).next) curr (l₁ ++ r :: l₂)) (hr : r ∉ l₁)
    (hl : l₁.length < fuel) :
    CachePool.findPrev k r fuel prev curr = some (l₁.getLast?.or prev) := by
  induction l₁ generalizing prev curr fuel with
  | nil =>
    cases fuel with
    | zero => exact absurd hl (Nat.not_lt_zero _)
    | succ fuel =>
      unfold CachePool.findPrev
      rw [if_pos h.1]
      rfl
  | cons a l₁ ih =>
    cases fuel with
    | zero => exact absurd hl (Nat.not_lt_zero _)
    | succ fuel =>
      obtain ⟨rfl, h⟩ := h
      rw [List.mem_cons, not_or] at hr
      unfold CachePool.findPrev
      rw [if_neg fun he => hr.1 (Option.some.inj he).symm]
      simp only [Option.bind_eq_bind, Option.bind_some]
      rw [ih _ _ h hr.2 (Nat.lt_of_succ_lt_succ hl), List.getLast?_cons]
      cases l₁.getLast? <;> rfl

/-- A record that is not on the list is not found. -/
theorem findPrev_none {curr : Ptr} (fuel : Nat) (prev : Ptr)
    (h : Linked (fun r => (k.record r).next) curr l) (hr : r ∉ l) :
    CachePool.findPrev k r fuel prev curr = none := by
  induction l generalizing prev curr fuel with
  | nil =>
    obtain rfl : curr = none := h
    cases fuel <;> rfl
  | cons a l ih =>
    cases fuel with
    | zero => rfl
    | succ fuel =>
      obtain ⟨rfl, h⟩ := h
      rw [List.mem_cons, not_or] at hr
      unfold CachePool.findPrev
      rw [if_neg fun he => hr.1 (Option.some.inj he).symm]
      exact ih _ _ h hr.2

theorem destroyRecord_none (h : Linked (fun r => (k.record r).next) k.head l) (hr : r ∉ l) :
    CachePool.destroyRecord k r = none := by
  unfold CachePool.destroyRecord
  rw [findPrev_none addrSpace none h hr]
  rfl

/-- The caches are in other records than one that has all its slots free. -/
theorem Pool.used_erase (h : Pool k V) (hr : r ∈ V.records) (hall : (V.slots r).length = slotNum) :
    ∀ a ∈ V.caches, ∃ u ∈ V.records.erase r, ∃ j < slotNum, a = slotAddr u j ∧ a ∉ V.slots u := by
  intro a ha
  obtain ⟨u, hu, j, hj, haj, hna⟩ := h.used a ha
  refine ⟨u, (h.nodup.mem_erase_iff).2 ⟨?_, hu⟩, j, hj, haj, hna⟩
  intro he
  subst he
  have hsub : V.slots u ⊆ allSlots u := fun x hx => mem_allSlots.2 ((h.free u hr).slots x hx)
  have hfree : (V.slots u).Nodup := Linked.nodup (h.free u hr).chain
  have hperm := (hfree.subperm hsub).perm_of_length_le (by
    simp only [allSlots, List.length_map, List.length_range, hall, Nat.le_refl])
  exact hna (hperm.mem_iff.2 (mem_allSlots.2 ⟨j, hj, haj⟩))

/-- When the record `r` goes, the one before it is the last one if `r` was. -/
theorem tail_erase {l₁ l₂ : List Nat} {q : Nat} {tail : Ptr} (hr : r ∉ l₂)
    (h : ∀ t, tail = some t → (l₁ ++ [q] ++ r :: l₂).getLast? = some t) :
    ∀ t, (if tail = some r then some q else tail) = some t →
      (l₁ ++ [q] ++ l₂).getLast? = some t := by
  intro t ht
  rw [List.getLast?_append, List.getLast?_concat]
  cases hl₂ : l₂.getLast? with
  | none =>
    rw [List.getLast?_eq_none_iff] at hl₂
    subst hl₂
    split at ht
    · exact ht
    · rename_i hne
      have := h t ht
      rw [List.getLast?_concat] at this
      exact absurd (ht.trans this.symm) hne
  | some u =>
    have hur : u ≠ r := fun he => hr (he ▸ List.mem_of_getLast? hl₂)
    have hlast : ∀ t, tail = some t → t = u := fun t ht => by
      have := h t ht
      rw [List.getLast?_append, List.getLast?_cons, hl₂] at this
      exact (Option.some.inj this).symm
    split at ht
    · rename_i he
      exact absurd (hlast r he).symm hur
    · rw [hlast t ht]
      rfl

/-- A record that has all its slots free goes back, if it is on the list and not the first one. -/
theorem Pool.drop (h : Pool k V) (hr : r ∈ V.listed) (hhead : k.head ≠ some r)
    (hall : (V.slots r).length = slotNum) (hlen : V.records.length ≤ addrSpace) :
    ∃ record tail, (∀ n b, k.buddy.free (some r) 0 = some (n, b) →
        CachePool.destroyRecord k r = some { k with record, tail, buddy := b }) ∧
      (k.tail ≠ none → tail ≠ none) ∧
      ∀ b, Pool { k with record, tail, buddy := b }
        { V with records := V.records.erase r, listed := V.listed.erase r } := by
  have hnd := Linked.nodup h.listed
  have hnd' := hnd
  have hused := h.used_erase (h.subset hr) hall
  obtain ⟨l₁, l₂, hl⟩ := List.append_of_mem hr
  have hlinked := h.listed
  have hlast := h.tail
  have hlen' : V.listed.length ≤ addrSpace := (hnd.subperm h.subset).length_le.trans hlen
  rw [hl] at hlinked hlast hnd hlen'
  have hr₁ : r ∉ l₁ := fun hm => (List.nodup_append.1 hnd).2.2 r hm r (.head _) rfl
  have hr₂ : r ∉ l₂ := (List.nodup_cons.1 (List.nodup_append.1 hnd).2.1).1
  rcases List.eq_nil_or_concat l₁ with rfl | ⟨l₀, q, rfl⟩
  · exact absurd hlinked.1 hhead
  · rw [List.concat_eq_append] at *
    have hfind := findPrev_eq addrSpace none hlinked hr₁
      (by simp only [List.length_append, List.length_cons] at hlen' ⊢; omega)
    rw [List.getLast?_concat, Option.some_or] at hfind
    have hqr : q ≠ r := fun he => hr₁ (he ▸ List.mem_append_right _ (.head _))
    have herase : V.listed.erase r = (l₀ ++ [q]) ++ l₂ := by
      rw [hl, List.erase_append_right _ hr₁, List.erase_cons_head]
    let record := update (update k.record q { k.record q with next := (k.record r).next }) r
      { update k.record q { k.record q with next := (k.record r).next } r with next := none }
    have hsame : ∀ {β : Type} (g : CacheRecord → β), (∀ x v, g { x with next := v } = g x) →
        ∀ u, g (record u) = g (k.record u) := by
      intro β g hg u
      simp only [record]
      by_cases hur : u = r
      · rw [hur, update_self, hg, update_of_ne hqr.symm]
      · rw [update_of_ne hur]
        by_cases huq : u = q
        · rw [huq, update_self, hg]
        · rw [update_of_ne huq]
    refine ⟨record, if k.tail = some r then some q else k.tail, fun n b hb => ?_, fun ht => ?_,
      fun b => ⟨h.caches, ?_, fun t ht => ?_, fun u hu => ?_, h.nodup.erase r, fun u hu => ?_, hused⟩⟩
    · unfold CachePool.destroyRecord
      simp only [hfind, Option.bind_eq_bind, Option.bind_some, Kmem.free]
      by_cases ht : k.tail = some r
      · simp only [Kmem.modRecord, ht, if_true, hb, Option.map_some, record]
      · simp only [Kmem.modRecord, ht, if_false, hb, Option.map_some, record]
    · split
      · exact Option.some_ne_none q
      · exact ht
    · rw [herase]
      rw [List.append_assoc] at hlinked
      have hunlink := Linked.unlink hlinked
      rw [show l₀ ++ q :: l₂ = l₀ ++ [q] ++ l₂ by simp] at hunlink
      refine Seg.congr hunlink fun u hu => ?_
      have hur : u ≠ r := by
        intro he
        subst he
        exact (List.mem_append.1 hu).elim hr₁ hr₂
      simp only [record, update_of_ne hur]
      by_cases huq : u = q
      · rw [huq, update_self, update_self]
      · rw [update_of_ne huq, update_of_ne huq]
    · rw [herase]
      exact tail_erase hr₂ hlast t ht
    · obtain ⟨hur, hu⟩ := hnd'.mem_erase_iff.1 hu
      exact h.nodup.mem_erase_iff.2 ⟨hur, h.subset hu⟩
    · have hrep := h.free u (List.mem_of_mem_erase hu)
      exact ⟨(hsame CacheRecord.numOfSlots (fun _ _ => rfl) u).trans hrep.numOfSlots,
        (hsame CacheRecord.numOfFreeSlots (fun _ _ => rfl) u).trans hrep.numOfFreeSlots,
        (hsame CacheRecord.freeSlot (fun _ _ => rfl) u).symm ▸ hrep.chain, hrep.slots⟩

/-- The free slots of a record are some of all its slots. -/
theorem RecordRep.length_le {free : List Nat} (h : RecordRep k r free) : free.length ≤ slotNum := by
  have hsub : free ⊆ allSlots r := fun x hx => mem_allSlots.2 (h.slots x hx)
  have := ((Linked.nodup h.chain).subperm hsub).length_le
  simpa only [allSlots, List.length_map, List.length_range] using this

theorem exists_slot {free : List Nat} (h : free.length < slotNum) :
    ∃ j < slotNum, slotAddr r j ∉ free := by
  by_contra hall
  push Not at hall
  have hnd : (allSlots r).Nodup :=
    List.nodup_range.map fun _ _ => slotAddr_inj
  have hsub : allSlots r ⊆ free := fun x hx => by
    obtain ⟨j, hj, rfl⟩ := mem_allSlots.1 hx
    exact hall j hj
  have := (hnd.subperm hsub).length_le
  simp only [allSlots, List.length_map, List.length_range] at this
  omega

/-- The slot of a cache becomes free, in a record that keeps a cache or is given back. -/
theorem View.Tight.release {j : Nat} (h : V.Tight) (halign : ∀ r ∈ V.records, blockSize ∣ r)
    (hr : r ∈ V.records) (hj : j < slotNum) (hcj : c = slotAddr r j) (hnd : V.caches.Nodup) :
    (∀ u ∈ V.records, ∀ i < slotNum, slotAddr u i ∉ update V.slots r (c :: V.slots r) u →
      slotAddr u i ∈ V.caches.erase c) ∧
    ∀ u ∈ V.records, V.listed.head? ≠ some u → u ≠ r →
      ∃ i < slotNum, slotAddr u i ∈ V.caches.erase c := by
  have hne : ∀ u ∈ V.records, u ≠ r → ∀ i < slotNum, slotAddr u i ≠ c := by
    intro u hu hur i hi he
    exact hur (by rw [← slotAddr_header (halign u hu) hi, ← slotAddr_header (halign r hr) hj, he, hcj])
  refine ⟨fun u hu i hi hnot => ?_, fun u hu hhead hur => ?_⟩
  · rw [hnd.mem_erase_iff]
    by_cases hur : u = r
    · subst hur
      rw [update_self, List.mem_cons, not_or] at hnot
      exact ⟨hnot.1, h.slots u hu i hi hnot.2⟩
    · rw [update_of_ne hur] at hnot
      exact ⟨hne u hu hur i hi, h.slots u hu i hi hnot⟩
  · obtain ⟨i, hi, hm⟩ := h.busy u hu hhead
    exact ⟨i, hi, hnd.mem_erase_iff.2 ⟨hne u hu hur i hi, hm⟩⟩

/-- `deallocateSlot` gives the slot of a cache back, and its record if that has no cache left. The
record must be on the list then. -/
theorem Pool.deallocateSlot (h : Pool k V) (hstart : blockSize ∣ k.buddy.kernelStartAddr)
    (hc : c ∈ V.caches) (hb : Buddy.Inv k.buddy (V.records.map (·, 0) ++ live)) :
    (V.listed ≠ V.records ∧ CachePool.deallocateSlot k c = none) ∨
    ∃ k' records listed slots, CachePool.deallocateSlot k c = some k' ∧
      Pool k' { V with caches := V.caches.erase c, records, listed, slots } ∧
      (V.Tight → ({ V with caches := V.caches.erase c, records, listed, slots } : View).Tight) ∧
      (Unbroken k V → listed = records ∧ k'.tail ≠ none) ∧
      (∀ a ≠ c, (k'.cache a).unlinked = (k.cache a).unlinked) ∧ k'.slab = k.slab ∧
      k'.memoryBuffers = k.memoryBuffers ∧ k'.memBuffSlabs = k.memBuffSlabs ∧
      Buddy.Inv k'.buddy (records.map (·, 0) ++ live) ∧
      k'.buddy.kernelStartAddr = k.buddy.kernelStartAddr ∧
      ∃ l, V.records.Perm (l ++ records) ∧ k.buddy.freeAll (l.map (·, 0)) = some k'.buddy ∧
        k'.calls = k.calls := by
  have halign : ∀ r ∈ V.records, blockSize ∣ r := fun r hr => aligned hb hstart hr
  have hlen := records_length hb
  obtain ⟨r, hr, j, hj, hcj, hnot⟩ := h.used c hc
  obtain ⟨cache, cacheHead, cacheTail, he, hq, hsame⟩ := unlinkCache_spec h.caches hc
  have hhead : c / blockSize * blockSize = r := hcj ▸ slotAddr_header (halign r hr) hj
  let cache' := update cache c { cache c with next := none, prev := none }
  have hne : ∀ a ∈ V.caches.erase c, a ≠ c := fun a ha =>
    ((DQueue.nodup h.caches).mem_erase_iff.1 ha).1
  have hq' : DQueue (fun c => (cache' c).next) (fun c => (cache' c).prev) cacheHead cacheTail
      (V.caches.erase c) := by
    refine DSeg.congr hq (fun a ha => ?_) fun a ha => ?_
    · simp only [cache', update_of_ne (hne a ha)]
    · simp only [cache', update_of_ne (hne a ha)]
  have hsame' : ∀ a ≠ c, (cache' a).unlinked = (k.cache a).unlinked := fun a ha => by
    simp only [cache', update_of_ne ha, hsame a]
  have hrel := h.release halign hr hj hcj hnot hq'
  have htight := fun ht : V.Tight => ht.release halign hr hj hcj (DQueue.nodup h.caches)
  unfold CachePool.deallocateSlot
  simp only [he, hhead, Option.bind_eq_bind, Option.bind_some, pure]
  split
  · rename_i hfull
    by_cases hrl : r ∈ V.listed
    · right
      have hrep := hrel.free r hr
      have hall : (update V.slots r (c :: V.slots r) r).length = slotNum :=
        hrep.numOfFreeSlots.symm.trans (hfull.1.trans hrep.numOfSlots)
      obtain ⟨record, tail, hdestroy, htail, hdrop⟩ := hrel.drop hrl hfull.2 hall hlen
      have hp : (V.records.map (·, 0) ++ live).Perm
          ((r, 0) :: ((V.records.erase r).map (·, 0) ++ live)) :=
        ((List.perm_cons_erase hr).map (·, 0)).append_right live
      obtain ⟨b, hfree, hg, hb'⟩ := (hb.perm hp).free (.head _)
      rw [List.erase_cons_head] at hb'
      refine ⟨_, _, _, _, hdestroy _ b hfree, hdrop b, fun ht => ?_,
        fun hu => ⟨by rw [hu.1], htail hu.2⟩, hsame', rfl, rfl, rfl, hb', hg.start,
        [r], List.perm_cons_erase hr, Buddy.freeAll_cons hfree rfl, rfl⟩
      obtain ⟨hslots, hbusy⟩ := htight ht
      refine ⟨fun u hu => hslots u (List.mem_of_mem_erase hu), fun u hu hh => ?_⟩
      obtain ⟨hur, hu⟩ := h.nodup.mem_erase_iff.1 hu
      refine hbusy u hu (fun hhead' => hh ?_) hur
      -- the record that is given back is not the first one
      cases hl : V.listed with
      | nil =>
        rw [hl] at hrl
        exact absurd hrl List.not_mem_nil
      | cons a l =>
        rw [hl, List.head?_cons, Option.some.injEq] at hhead'
        subst hhead'
        rw [List.erase_cons_tail (by simpa using hur), List.head?_cons]
    · exact .inl ⟨fun hl => hrl (hl ▸ hr), destroyRecord_none hrel.listed hrl⟩
  · rename_i hfull
    refine .inr ⟨_, _, _, _, rfl, hrel, fun ht => ?_, id, hsame', rfl, rfl, rfl, hb, rfl, [], .rfl,
      rfl, rfl⟩
    obtain ⟨hslots, hbusy⟩ := htight ht
    refine ⟨hslots, fun u hu hh => ?_⟩
    by_cases hur : u = r
    · subst hur
      -- the record is not the first one, so a slot of it is in use
      have hrep := hrel.free u hr
      have hnum : (update V.slots u (c :: V.slots u) u).length ≠ slotNum := by
        intro hlen'
        refine hfull ⟨hrep.numOfFreeSlots.trans (hlen'.trans hrep.numOfSlots.symm), fun hk => hh ?_⟩
        exact (Linked.head? h.listed).symm.trans hk
      obtain ⟨i, hi, hfree⟩ := exists_slot (r := u) (Nat.lt_of_le_of_ne hrep.length_le hnum)
      exact ⟨i, hi, hslots u hr i hi hfree⟩
    · exact hbusy u hu hh hur

end SlabKernel
