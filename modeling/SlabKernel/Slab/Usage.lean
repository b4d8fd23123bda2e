import Mathlib.Data.Set.Card
import SlabKernel.Slab.Straddling

/-!
# The report of a cache

`Cache::printInfo` counts the slots of the three lists of slabs, and how many of them are used. The
used slots are the live objects (`Inv.ncard_live`). It divides by the number of slots before it looks
whether this is 0. So the report is exact iff the cache has a slab and the product of 1000 and the
number of live objects is an `int` (`report_exact_iff`).
-/

namespace SlabKernel

open PtrList CachePool Runs

/-- A call of `kprintString` or of `kprintInt`. -/
inductive Print
  | string (text : String)
  | int (n : Int)

namespace Cache

/-- The loop of `objectCount`, from `curr` on. -/
def objectCount (k : Kmem) : Nat → Ptr → Int → Int → Option (Int × Int)
  | _, none, free, allocated => some (free, allocated)
  | 0, some _, _, _ => none
  | fuel + 1, some curr, free, allocated =>
    let S := k.slab curr
    objectCount k fuel S.next (toInt32 (free + S.numOfSlots))
      (toInt32 (allocated + sub64 S.numOfSlots S.numOfFreeSlots))

/-- The quotient of two `int`s; there is none for the divisor 0. -/
def quotient (a b : Int) : Option Int := if b = 0 then none else some (a.tdiv b)

/-- The percentage that `printInfo` computes and prints. -/
def usage (k : Kmem) (this : Nat) : Option Int := do
  let (freeCount, allocatedCount) ← objectCount k addrSpace (k.cache this).slabsFree 0 0
  let (freeCount, allocatedCount) ←
    objectCount k addrSpace (k.cache this).slabsPartial freeCount allocatedCount
  let (freeCount, allocatedCount) ←
    objectCount k addrSpace (k.cache this).slabsFull freeCount allocatedCount
  let percentage ← quotient (toInt32 (1000 * allocatedCount)) freeCount
  let percentage := percentage.tdiv 10
  if freeCount = 0 then return 0 else return percentage

/-- `printInfo` of the cache called `name`. -/
def printInfo (k : Kmem) (this : Nat) (name : String) : Option (List Print) := do
  let C := k.cache this
  let size := match C.group with
    | .SMALL_MEMORY_BUFFER => [.int (toInt32 C.slotSize)]
    | .KERNEL_OBJECT => []
  let cacheSize := (toInt32 (C.numOfSlabs * C.slabSize)).tdiv blockSize
  let percentage ← usage k this
  return [.string "Cache name: ", .string name] ++ size ++
    [.string "\n", .string "Object size: ", .int (toInt32 C.slotSize), .string "B\n",
      .string "Cache size: ", .int cacheSize,
      .string (if cacheSize = 1 then " block\n" else " blocks\n"),
      .string "Number of slabs in cache: ", .int (toInt32 C.numOfSlabs), .string "\n",
      .string "Number of objects in one slab: ", .int (toInt32 C.objNum), .string "\n"] ++
    [.int percentage, .string "% of cache is used.\n"]

/-- The report ends with the percentage `n`. -/
def Reports (out : Option (List Print)) (n : Int) : Prop :=
  ∃ l, out = some (l ++ [.int n, .string "% of cache is used.\n"])

theorem reports_iff {k : Kmem} {this : Nat} {name : String} {n : Int} :
    Reports (printInfo k this name) n ↔ usage k this = some n := by
  unfold Reports printInfo
  cases usage k this with
  | none => simp
  | some m =>
    simp only [Option.pure_def, Option.bind_eq_bind, Option.bind_some, Option.some.injEq]
    constructor
    · intro h
      obtain ⟨l, hl⟩ := h
      have := (List.append_inj' hl rfl).2
      simp only [List.cons.injEq, Print.int.injEq, and_true] at this
      exact this
    · intro h
      exact ⟨_, by rw [h]⟩

/-- The slots of the slabs `l`. -/
def slotCount (k : Kmem) (l : List Nat) : Nat := (l.map fun t => (k.slab t).numOfSlots).sum

/-- The used slots of the slabs `l`. -/
def usedCount (k : Kmem) (l : List Nat) : Nat :=
  (l.map fun t => (k.slab t).numOfSlots - (k.slab t).numOfFreeSlots).sum

theorem slotCount_append (k : Kmem) (l l' : List Nat) :
    slotCount k (l ++ l') = slotCount k l + slotCount k l' := by
  unfold slotCount
  rw [List.map_append, List.sum_append]

theorem usedCount_append (k : Kmem) (l l' : List Nat) :
    usedCount k (l ++ l') = usedCount k l + usedCount k l' := by
  unfold usedCount
  rw [List.map_append, List.sum_append]

theorem usedCount_le (k : Kmem) (l : List Nat) : usedCount k l ≤ slotCount k l := by
  induction l with
  | nil => exact Nat.le_refl _
  | cons t l ih =>
    unfold usedCount slotCount at *
    simp only [List.map_cons, List.sum_cons]
    omega

/-- The counts of a list that stay in the range of `int`. -/
theorem objectCount_spec {k : Kmem} {fuel : Nat} {p : Ptr} {l : List Nat} {n a : Nat}
    (h : Linked (fun t => (k.slab t).next) p l) (hl : l.length ≤ fuel)
    (hfree : ∀ t ∈ l, (k.slab t).numOfFreeSlots ≤ (k.slab t).numOfSlots) (ha : a ≤ n)
    (hn : n + slotCount k l < 2 ^ 31) :
    objectCount k fuel p n a = some (↑(n + slotCount k l), ↑(a + usedCount k l)) := by
  induction l generalizing p fuel n a with
  | nil =>
    obtain rfl : p = none := h
    cases fuel <;> rfl
  | cons t l ih =>
    obtain ⟨rfl, h⟩ := h
    cases fuel with
    | zero => cases hl
    | succ fuel =>
      have hle := hfree t (.head _)
      have hslots : slotCount k (t :: l) = (k.slab t).numOfSlots + slotCount k l := by
        unfold slotCount
        rw [List.map_cons, List.sum_cons]
      have hused : usedCount k (t :: l) =
          (k.slab t).numOfSlots - (k.slab t).numOfFreeSlots + usedCount k l := by
        unfold usedCount
        rw [List.map_cons, List.sum_cons]
      rw [hslots] at hn ⊢
      unfold objectCount
      simp only
      rw [sub64_of_le hle (by omega), toInt32_of_range (by omega) (by omega),
        toInt32_of_range (by omega) (by omega), ← Nat.cast_add, ← Nat.cast_add,
        ih h (Nat.le_of_succ_le_succ hl) (fun u hu => hfree u (.tail _ hu)) (by omega) (by omega),
        hused]
      congr 3 <;> omega

/-- What `printInfo` prints for `n` slots of which `a` are used. -/
theorem usage_eq {k : Kmem} {c n a : Nat} {L : SlabGroup → List Nat} {ch : Nat → List Nat}
    (h : CacheRep k c L ch) (hl : ∀ g, (L g).length ≤ addrSpace)
    (hn : slotCount k (slabsOf L) = n) (ha : usedCount k (slabsOf L) = a) (hbound : n < 2 ^ 31) :
    usage k c = if n = 0 then none else some (((toInt32 (1000 * a)).tdiv n).tdiv 10) := by
  have hfree : ∀ g, ∀ t ∈ L g, (k.slab t).numOfFreeSlots ≤ (k.slab t).numOfSlots := by
    intro g t ht
    have hf := h.filled g t ht
    rw [hf.numOfSlots, hf.numOfFreeSlots]
    exact hf.length_le
  have hlist := fun g => (h.shelves.lists g).linked
  unfold slabsOf at hn ha
  rw [slotCount_append, slotCount_append] at hn
  rw [usedCount_append, usedCount_append] at ha
  have hle := fun g => usedCount_le k (L g)
  have hf := hle .FREE
  have hp := hle .PARTIAL
  have h1 : objectCount k addrSpace (k.cache c).slabsFree 0 0 = _ :=
    objectCount_spec (n := 0) (a := 0) (hlist .FREE) (hl .FREE) (hfree .FREE) (Nat.le_refl 0)
      (by omega)
  have h2 : objectCount k addrSpace (k.cache c).slabsPartial _ _ = _ :=
    objectCount_spec (n := slotCount k (L .FREE)) (a := usedCount k (L .FREE)) (hlist .PARTIAL)
      (hl .PARTIAL) (hfree .PARTIAL) hf (by omega)
  have h3 : objectCount k addrSpace (k.cache c).slabsFull _ _ = _ :=
    objectCount_spec (n := slotCount k (L .FREE) + slotCount k (L .PARTIAL))
      (a := usedCount k (L .FREE) + usedCount k (L .PARTIAL))
      (hlist .FULL) (hl .FULL) (hfree .FULL) (by omega) (by omega)
  unfold usage
  simp only [Nat.zero_add] at h1
  simp only [h1, h2, h3, Option.bind_eq_bind, Option.bind_some]
  rw [show slotCount k (L .FREE) + slotCount k (L .PARTIAL) + slotCount k (L .FULL) = n by omega,
    show usedCount k (L .FREE) + usedCount k (L .PARTIAL) + usedCount k (L .FULL) = a by omega]
  unfold quotient
  simp only [Nat.cast_eq_zero]
  by_cases hz : n = 0
  · rw [if_pos hz, if_pos hz, Option.bind_none]
  · rw [if_neg hz, if_neg hz, Option.bind_some, if_neg hz]
    rfl

/-- The percentage of `a` in `n` is right when the product does not overflow. Otherwise it wraps
around once, and is negative. -/
theorem percentage_iff {a n : Nat} (hn : n ≠ 0) (ha : a ≤ n) (hbound : n ≤ 2 ^ 12 * 804) :
    ((toInt32 (1000 * a)).tdiv n).tdiv 10 = ↑(100 * a / n) ↔ 1000 * a < 2 ^ 31 := by
  constructor
  · intro he
    by_contra hbig
    have hwrap : toInt32 (1000 * a) = -((2 ^ 32 - 1000 * a : Nat) : Int) := by
      unfold toInt32
      rw [Int.bmod_def]
      split <;> omega
    have hten : 10 ≤ (2 ^ 32 - 1000 * a) / n := by
      rw [Nat.le_div_iff_mul_le (Nat.pos_of_ne_zero hn)]
      omega
    have hpos : (0 : Int) ≤ ↑(100 * a / n) := Int.natCast_nonneg _
    rw [hwrap, Int.neg_tdiv, Int.neg_tdiv, ← Int.ofNat_tdiv,
      show (10 : Int) = (10 : Nat) from rfl, ← Int.ofNat_tdiv] at he
    omega
  · intro hsmall
    rw [toInt32_of_range (by omega) (by omega), show (1000 * a : Int) = (1000 * a : Nat) by omega,
      show (10 : Int) = (10 : Nat) from rfl, ← Int.ofNat_tdiv, ← Int.ofNat_tdiv,
      Nat.div_div_eq_div_mul, show 1000 * a = 100 * a * 10 by omega, Nat.mul_div_mul_right _ _ (by decide)]

end Cache

/-! ## Live objects -/

variable {k : Kmem} {V : View} {extra : List (Nat × Nat)} {c t p : Nat}

/-- The used slots of the slab `t` of the cache `c`. -/
def Kmem.usedSlots (k : Kmem) (V : View) (c t : Nat) : List Nat :=
  ((List.range (k.cache c).objNum).filter (· ∉ V.chain t)).map fun i =>
    (k.slab t).mem.getD 0 + i * (k.cache c).slotSize

namespace Kmem.Inv

theorem slab_mem (h : k.Inv V extra) (hc : c ∈ V.caches) (ht : t ∈ V.slabs c) :
    ∃ m, (k.slab t).mem = some m := by
  have hp := h.placed c hc t ht
  by_cases htype : (k.cache c).type = 0
  · exact ⟨_, hp.object htype⟩
  · exact Option.ne_none_iff_exists'.1 (hp.buffer htype).1

theorem mem_usedSlots (h : k.Inv V extra) (hc : c ∈ V.caches) (ht : t ∈ V.slabs c) :
    p ∈ k.usedSlots V c t ↔ ∃ i, Slot k V c t i p ∧ i ∉ V.chain t := by
  obtain ⟨m, hm⟩ := h.slab_mem hc ht
  unfold Kmem.usedSlots
  rw [List.mem_map, hm]
  simp only [List.mem_filter, List.mem_range, decide_eq_true_eq, Option.getD_some]
  constructor
  · intro hp
    obtain ⟨i, ⟨hi, hfree⟩, rfl⟩ := hp
    exact ⟨i, ⟨ht, hi, m, hm, rfl⟩, hfree⟩
  · intro hp
    obtain ⟨i, ⟨-, hi, m', hm', rfl⟩, hfree⟩ := hp
    obtain rfl := Option.some.inj (hm.symm.trans hm')
    exact ⟨i, ⟨hi, hfree⟩, rfl⟩

theorem usedSlots_nodup (h : k.Inv V extra) (hc : c ∈ V.caches) : (k.usedSlots V c t).Nodup := by
  have hpos := h.slotSize_pos hc
  refine (List.nodup_range.filter _).map fun i j hij => ?_
  exact Nat.eq_of_mul_eq_mul_right hpos (Nat.add_left_cancel hij)

/-- A slab has as many used slots as it counts. -/
theorem usedSlots_length (h : k.Inv V extra) (hc : c ∈ V.caches) (ht : t ∈ V.slabs c) :
    (k.usedSlots V c t).length = (k.slab t).numOfSlots - (k.slab t).numOfFreeSlots := by
  obtain ⟨g, hg⟩ := mem_slabsOf.1 ht
  have hf := (h.reps c hc).filled g t hg
  have hperm : (List.range (k.cache c).objNum).filter (· ∈ V.chain t) |>.Perm (V.chain t) := by
    refine (List.perm_ext_iff_of_nodup (List.nodup_range.filter _) hf.nodup).2 fun i => ?_
    simp only [List.mem_filter, List.mem_range, decide_eq_true_eq, and_iff_right_iff_imp]
    exact hf.bound i
  have hsplit := List.length_eq_length_filter_add (l := List.range (k.cache c).objNum)
    (fun i => decide (i ∈ V.chain t))
  rw [hperm.length_eq, List.length_range] at hsplit
  unfold Kmem.usedSlots
  rw [List.length_map, hf.numOfSlots, hf.numOfFreeSlots]
  simp only [decide_not]
  omega

/-- The live objects of a cache are as many as its slabs count. -/
theorem ncard_live (h : k.Inv V extra) (hc : c ∈ V.caches) :
    {p | Live k V c p}.ncard = Cache.usedCount k (V.slabs c) := by
  have hrep := h.reps c hc
  have hslabs : (V.slabs c).Nodup :=
    slabsOf_nodup (fun g => (hrep.shelves.lists g).nodup) hrep.shelves.disjoint
  have hnodup : ((V.slabs c).flatMap (k.usedSlots V c)).Nodup := by
    refine List.nodup_flatMap.2 ⟨fun t _ => h.usedSlots_nodup hc, ?_⟩
    refine hslabs.imp_of_mem fun {t u} ht hu hne q hq hq' => hne ?_
    obtain ⟨i, hi, -⟩ := (h.mem_usedSlots hc ht).1 hq
    obtain ⟨j, hj, -⟩ := (h.mem_usedSlots hc hu).1 hq'
    exact (h.slot_unique hc hc hi hj).2.1
  have hset : {p | Live k V c p} = ((V.slabs c).flatMap (k.usedSlots V c)).toFinset := by
    ext p
    simp only [Set.mem_ofPred_eq, List.coe_toFinset, List.mem_flatMap]
    constructor
    · intro hl
      obtain ⟨t, i, hslot, hfree⟩ := hl
      exact ⟨t, hslot.slab, (h.mem_usedSlots hc hslot.slab).2 ⟨i, hslot, hfree⟩⟩
    · intro hp
      obtain ⟨t, ht, hp⟩ := hp
      exact ⟨t, (h.mem_usedSlots hc ht).1 hp⟩
  rw [hset, Set.ncard_coe_finset, List.toFinset_card_of_nodup hnodup, List.length_flatMap]
  unfold Cache.usedCount
  exact congrArg List.sum (List.map_congr_left fun t ht => h.usedSlots_length hc ht)

theorem slotCount_eq (h : k.Inv V extra) (hc : c ∈ V.caches) :
    Cache.slotCount k (V.slabs c) = (k.cache c).numOfSlabs * (k.cache c).objNum := by
  have hrep := h.reps c hc
  have hnum : ∀ t ∈ V.slabs c, (k.slab t).numOfSlots = (k.cache c).objNum := fun t ht => by
    obtain ⟨g, hg⟩ := mem_slabsOf.1 ht
    exact (hrep.filled g t hg).numOfSlots
  unfold Cache.slotCount
  rw [List.map_congr_left hnum, List.map_const', List.sum_replicate_nat, hrep.numOfSlabs]
  rfl

end Kmem.Inv

namespace SlabClient

variable {s : SlabClient}

/-- No slab has more than 804 slots: one page for the header and slots of one byte. -/
theorem Inv.objNum_le (h : s.Inv V extra) (hs : s.Sized) (hc : c ∈ V.caches) :
    (s.kmem.cache c).objNum ≤ 804 := by
  have hpage : (s.kmem.cache c).IsObject → (s.kmem.cache c).slabOrder = 0 →
      (s.kmem.cache c).objNum ≤ 804 := by
    intro ho hzero
    have hfits := ho.fits
    have hslot := Nat.mul_le_mul_left (s.kmem.cache c).objNum ho.slotSize
    rw [ho.slabSize, hzero] at hfits
    unfold blockSize sizeofSlab at hfits
    omega
  rcases h.caches c hc with huser | ⟨i, hi⟩ | ⟨i, hi⟩
  · obtain ⟨-, ho, -⟩ := h.user c huser
    obtain ⟨hsize, horder⟩ := hs c huser
    obtain ⟨o, horder', hpos, -, hprev⟩ := Cache.getOrder_spec (hsize.trans (by decide))
    rw [horder, Option.some.injEq, Prod.mk.injEq] at horder'
    obtain ⟨rfl, hnum⟩ := horder'
    by_cases hzero : (s.kmem.cache c).slabOrder = 0
    · exact hpage ho hzero
    · -- a slab of several pages has one or two slots
      have := Cache.slotsOf_window (Nat.pos_of_ne_zero hzero) (hprev.resolve_left hzero) hpos
      omega
  · obtain ⟨-, ho, hzero, -⟩ := h.whole.classes.descriptor i c hi hc
    exact hpage ho hzero
  · have hb := (h.whole.classes.buffer i c hi hc).2
    have hpow : 2 ^ minBuffOrder ≤ 2 ^ (minBuffOrder + i) :=
      Nat.pow_le_pow_right (by decide) (Nat.le_add_right _ _)
    rw [hb.objNum]
    unfold numObjects
    split
    · decide
    · exact (Nat.div_le_div_left hpow (by decide)).trans (by decide)

/-- **The report of a cache.** In every state of a run, for every cache, `printInfo` divides by a
number that is not 0 and ends with the percentage of the slots of all slabs that are live objects,
iff the cache has a slab and 1000 times the number of its live objects is an `int`. -/
theorem report_exact_iff {heap : HeapBounds} {space : Nat} {blockNum : Int} {ops : List SlabCall}
    (hinit : kmem_init heap 12 space blockNum = some k)
    (hrun : Run Ok SlabClient.step (boot k) ops s) :
    ∃ V, s.Inv V [] ∧ ∀ c ∈ V.caches, ∀ name,
      Cache.Reports (Cache.printInfo s.kmem c name)
        ↑(100 * {p | Live s.kmem V c p}.ncard / Cache.slotCount s.kmem (V.slabs c)) ↔
      (s.kmem.cache c).numOfSlabs ≠ 0 ∧ 1000 * {p | Live s.kmem V c p}.ncard < 2 ^ 31 := by
  obtain ⟨⟨V, h⟩, hs⟩ := run_sized (boot_inv hinit)
    (fun _ hc => absurd hc List.not_mem_nil) hrun
  refine ⟨V, h, fun c hc name => ?_⟩
  have hrep := h.whole.reps c hc
  have hnum := h.objNum_le hs hc
  have hslabs := h.whole.slabs_length hc
  have hcount := h.whole.slotCount_eq hc
  have hpos := hrep.objNum.1
  rw [h.whole.ncard_live hc, Cache.reports_iff]
  generalize hn : Cache.slotCount s.kmem (V.slabs c) = n at *
  generalize ha : Cache.usedCount s.kmem (V.slabs c) = a
  have hle : a ≤ n := ha ▸ hn ▸ Cache.usedCount_le _ _
  have hmul : n ≤ 2 ^ 12 * 804 := by
    rw [hcount, hrep.numOfSlabs]
    exact Nat.mul_le_mul hslabs hnum
  have hzero : n = 0 ↔ (s.kmem.cache c).numOfSlabs = 0 := by
    rw [hcount, Nat.mul_eq_zero]
    omega
  have hlist : ∀ g, (V.lists c g).length ≤ addrSpace := fun g =>
    (h.whole.list_length hc g).trans (by decide)
  rw [Cache.usage_eq hrep hlist hn ha (by omega), ne_eq, ← hzero]
  by_cases hz : n = 0
  · rw [if_pos hz]
    exact iff_of_false (fun he => nomatch he) fun hand => hand.1 hz
  · rw [if_neg hz, Option.some.injEq, Cache.percentage_iff hz hle hmul, and_iff_right hz]

theorem report_exact_iff_64 : ∃ k s V,
    kmem_init Buddy.heap128 12 Buddy.heap128.startAddr 4096 = some k ∧
    Run Ok SlabClient.step (boot k) [.create 64 none none, .alloc 2147554976] s ∧
    Cache.Reports (Cache.printInfo s.kmem 2147554976 "test")
      ↑(100 * {p | Live s.kmem V 2147554976 p}.ncard /
        Cache.slotCount s.kmem (V.slabs 2147554976)) := by
  have h : ((kmem_init Buddy.heap128 12 Buddy.heap128.startAddr 4096).bind fun k =>
      (SlabClient.step (boot k) (.create 64 none none)).bind fun s₁ =>
      (s₁.step (.alloc 2147554976)).bind fun s =>
        if 2147554976 ∈ s₁.handles ∧ 2147554976 ∈ s.handles ∧
          (s.kmem.cache 2147554976).numOfSlabs = 1 ∧ s.live.length = 1 then some () else none) =
      some () := by
    decide +kernel
  obtain ⟨k, hk, h⟩ := Option.bind_eq_some_iff.1 h
  obtain ⟨s₁, h₁, h⟩ := Option.bind_eq_some_iff.1 h
  obtain ⟨s, h₂, h⟩ := Option.bind_eq_some_iff.1 h
  obtain ⟨⟨hc₁, hc, hslabs, hlive⟩, -⟩ := Option.ite_none_right_eq_some.1 h
  have hrun : Run Ok SlabClient.step (boot k) [.create 64 none none, .alloc 2147554976] s :=
    .cons ⟨by decide, by decide⟩ h₁ (.cons hc₁ h₂ .nil)
  obtain ⟨V, hi, h⟩ := report_exact_iff hk hrun
  refine ⟨k, s, V, hk, hrun, (h _ (hi.user _ hc).1 "test").2 ⟨by omega, ?_⟩⟩
  obtain ⟨q, hq⟩ := List.length_eq_one_iff.1 hlive
  have hsub : {p | Live s.kmem V 2147554976 p} ⊆ {q.2} := by
    intro p hp
    have hm := (hi.live _ hc p).2 hp
    rw [hq, List.mem_singleton] at hm
    exact (congrArg Prod.snd hm :)
  have := Set.ncard_le_ncard hsub
  rw [Set.ncard_singleton] at this
  omega

/-- A cache without slabs. -/
theorem report_fails : ∃ k s,
    kmem_init Buddy.heap128 12 Buddy.heap128.startAddr 4096 = some k ∧
    Run Ok SlabClient.step (boot k) [.create 64 none none] s ∧ 2147554976 ∈ s.handles ∧
    ∀ name, Cache.printInfo s.kmem 2147554976 name = none := by
  have h : ((kmem_init Buddy.heap128 12 Buddy.heap128.startAddr 4096).bind fun k =>
      (SlabClient.step (boot k) (.create 64 none none)).bind fun s =>
        if 2147554976 ∈ s.handles ∧ Cache.usage s.kmem 2147554976 = none then some () else none) =
      some () := by
    decide +kernel
  obtain ⟨k, hk, h⟩ := Option.bind_eq_some_iff.1 h
  obtain ⟨s, h₁, h⟩ := Option.bind_eq_some_iff.1 h
  obtain ⟨⟨hc, husage⟩, -⟩ := Option.ite_none_right_eq_some.1 h
  refine ⟨k, s, hk, .cons ⟨by decide, by decide⟩ h₁ .nil, hc, fun name => ?_⟩
  unfold Cache.printInfo
  simp only [husage, Option.bind_eq_bind, Option.bind_none]

end SlabClient

end SlabKernel
