import SlabKernel.Slab.Boot

/-!
# Objects and headers

`putObject` takes the page of an object for the header of its slab. That is right in the slabs of one
page and in those of one object (`Cache.InPage`). `getOrder` chooses the least order with a slot, so a
slab of several pages has one object or two, and two only for the sizes of `Straddles`: there the
second object starts in the last page but `putObject` reads that page as a header. Every object of a
run finds its header iff its size is none of these (`finds_header_iff`).
-/

namespace SlabKernel

open Function (update update_self update_of_ne)
open PtrList CachePool Runs

/-- A slab of `2 ^ o` pages has two objects of this size, though one of half the pages has none. -/
def Straddles (slotSize : Nat) : Prop :=
  ∃ o < 13, 1 ≤ o ∧ 2 ^ (o + 11) - 75 ≤ slotSize ∧ slotSize ≤ 2 ^ (o + 11) - 40

instance (slotSize : Nat) : Decidable (Straddles slotSize) :=
  inferInstanceAs (Decidable (∃ o < 13, _))

namespace Cache

variable {o size : Nat}

/-- The second object of a slab of several pages does not start in the first one. -/
theorem second_slot (ho : 1 ≤ o) (hsize : 2 ^ (o + 11) - 75 ≤ size) :
    blockSize ≤ sizeofSlab + 4 * 2 + size := by
  have hpow : 2 ^ 12 ≤ 2 ^ (o + 11) := Nat.pow_le_pow_right (by decide) (by omega)
  unfold blockSize sizeofSlab
  omega

/-- A slab of several pages has two slots in the window of `Straddles` and one outside of it. -/
theorem slotsOf_window (ho : 1 ≤ o) (hprev : slotsOf size (o - 1) = 0) (hpos : 1 ≤ slotsOf size o) :
    slotsOf size o = 2 ∧ 2 ^ (o + 11) - 75 ≤ size ∧ size ≤ 2 ^ (o + 11) - 40 ∨
      slotsOf size o = 1 ∧ ¬ (2 ^ (o + 11) - 75 ≤ size ∧ size ≤ 2 ^ (o + 11) - 40) := by
  obtain ⟨n, rfl⟩ : ∃ n, o = n + 1 := ⟨o - 1, by omega⟩
  rw [Nat.add_sub_cancel, Nat.div_eq_zero_iff] at hprev
  have hpow : 1 ≤ 2 ^ n := Nat.one_le_two_pow
  have h1 : 2 ^ (n + 1) = 2 * 2 ^ n := by rw [Nat.pow_succ, Nat.mul_comm]
  have h2 : 2 ^ (n + 1 + 11) = 4096 * 2 ^ n := by
    rw [Nat.add_assoc, Nat.pow_add, Nat.mul_comm]
  have hle : ∀ m, m ≤ slotsOf size (n + 1) ↔ m * (size + 4) ≤ 2 * 2 ^ n * blockSize - sizeofSlab := by
    intro m
    rw [Nat.le_div_iff_mul_le (by omega), h1]
  have hone := (hle 1).1 hpos
  have hthree := not_congr (hle 3)
  have htwo := hle 2
  rw [h2]
  unfold blockSize sizeofSlab at *
  omega

/-- The least order whose slabs have a slot. -/
theorem order_bounds (hprev : o = 0 ∨ slotsOf size (o - 1) = 0) (hpos : 1 ≤ slotsOf size o) :
    size + 76 ≤ 2 ^ (o + 12) ∧ (o = 0 ∨ 2 ^ (o + 11) < size + 76) := by
  rw [Nat.one_le_div_iff (by omega)] at hpos
  have hpow : 2 ^ (o + 12) = 2 ^ o * 4096 := Nat.pow_add 2 o 12
  refine ⟨by unfold blockSize sizeofSlab at hpos; omega, hprev.imp_right fun hz => ?_⟩
  rw [Nat.div_eq_zero_iff] at hz
  unfold blockSize sizeofSlab at hz
  by_cases ho : o = 0
  · subst ho
    omega
  · obtain ⟨n, rfl⟩ := Nat.exists_eq_succ_of_ne_zero ho
    have h1 : 2 ^ (n.succ + 11) = 2 ^ n * 4096 := by
      rw [show n.succ + 11 = n + 12 by omega, Nat.pow_add]
    rw [Nat.succ_sub_one] at hz
    omega

/-- The window of one order only contains sizes of this order. -/
theorem window_order {o' : Nat} (ho : 1 ≤ o) (hlt : 2 ^ (o + 11) < size + 76)
    (hle : size + 76 ≤ 2 ^ (o + 12)) (h1 : 2 ^ (o' + 11) - 75 ≤ size)
    (h2 : size ≤ 2 ^ (o' + 11) - 40) : o' = o := by
  have hpow : 2 ^ 12 ≤ 2 ^ (o + 11) := Nat.pow_le_pow_right (by decide) (by omega)
  have hdouble : 2 ^ (o + 12) = 2 * 2 ^ (o + 11) := by rw [← Nat.pow_succ']
  rcases Nat.lt_trichotomy o' o with h | h | h
  · have := Nat.pow_le_pow_right (n := 2) (by decide) (show o' + 12 ≤ o + 11 by omega)
    rw [Nat.pow_succ] at this
    omega
  · exact h
  · have := Nat.pow_le_pow_right (n := 2) (by decide) (show o + 12 ≤ o' + 11 by omega)
    omega

/-- The sizes whose slabs have their objects in the page of the header. -/
theorem inPage_iff (hs : size + 76 ≤ 2 ^ 12 * blockSize)
    (ho : getOrder size = some (o, slotsOf size o)) :
    o = 0 ∨ slotsOf size o = 1 ↔ ¬ Straddles size := by
  obtain ⟨o', ho', hpos, -, hprev⟩ := getOrder_spec (hs.trans (by decide))
  rw [ho, Option.some.injEq, Prod.mk.injEq] at ho'
  obtain ⟨rfl, -⟩ := ho'
  obtain ⟨hle, hlt⟩ := order_bounds hprev hpos
  by_cases hzero : o = 0
  · subst hzero
    apply iff_of_true (.inl rfl)
    intro hs
    obtain ⟨o', -, h1, h2, -⟩ := hs
    have hpow : 2 ^ 12 ≤ 2 ^ (o' + 11) := Nat.pow_le_pow_right (by decide) (by omega)
    omega
  · have hpos' : 1 ≤ o := Nat.pos_of_ne_zero hzero
    have hlt := hlt.resolve_left hzero
    rcases slotsOf_window hpos' (hprev.resolve_left hzero) hpos with ⟨h2, hw⟩ | ⟨h1, hw⟩
    · refine iff_of_false (by omega) fun hn => hn ⟨o, ?_, hpos', hw⟩
      by_contra hcon
      have hpow : 2 ^ 24 ≤ 2 ^ (o + 11) := Nat.pow_le_pow_right (by decide) (by omega)
      unfold blockSize at hs
      omega
    · refine iff_of_true (.inr h1) fun ⟨o', _, _, hw'⟩ => hw ?_
      obtain rfl := window_order hpos' hlt hle hw'.1 hw'.2
      exact hw'

end Cache

/-! ## Errors -/

variable {k k' : Kmem} {V : View} {extra : List (Nat × Nat)} {c t p : Nat}

/-- `putObject` reports an error only when the header has another owner. -/
theorem Slab.putObject_error (ho : (k.slab (p / blockSize * blockSize)).owner = some c)
    (h : Slab.putObject k p c = some k') (a : Nat) : (k'.cache a).error = (k.cache a).error := by
  unfold Slab.putObject at h
  simp only [ho, ne_eq, not_true_eq_false, if_false, Option.bind_eq_bind] at h
  obtain ⟨k₁, h₁, h⟩ := Option.bind_eq_some_iff.1 h
  obtain ⟨owner, -, h⟩ := Option.bind_eq_some_iff.1 h
  have hlast := (Slab.putIndex_relisted h).body a
  rw [Kmem.call_eq, Kmem.call_eq] at hlast
  exact (congrArg Cache.error (hlast.trans ((Slab.updateSlab_relisted h₁).body a)) :)

/-! ## Runs -/

/-- Every slot of the slab `t` finds its header iff the size of its cache does not straddle. -/
theorem Kmem.Inv.header_iff (h : k.Inv V extra) (hc : c ∈ V.caches) (ho : (k.cache c).IsObject)
    (ht : t ∈ V.slabs c) (hs : (k.cache c).slotSize + 76 ≤ 2 ^ 12 * blockSize)
    (horder : Cache.getOrder (k.cache c).slotSize =
      some ((k.cache c).slabOrder, (k.cache c).objNum)) :
    (∀ i p, Slot k V c t i p → p / blockSize * blockSize = t) ↔ ¬ Straddles (k.cache c).slotSize := by
  obtain ⟨o, horder', hpos, -, hprev⟩ := Cache.getOrder_spec (hs.trans (by decide))
  rw [horder, Option.some.injEq, Prod.mk.injEq] at horder'
  obtain ⟨rfl, hnum⟩ := horder'
  have hpage := Cache.inPage_iff hs (hnum ▸ horder)
  constructor
  · intro hfind
    rw [← hpage]
    by_contra hcon
    obtain ⟨h0, h1⟩ := not_or.1 hcon
    rcases Cache.slotsOf_window (Nat.pos_of_ne_zero h0) (hprev.resolve_left h0) hpos with
      ⟨h2, hw⟩ | ⟨h1', -⟩
    · -- the second slot of `t`
      rw [h2] at hnum
      have hm := (h.placed c hc t ht).object ho.type
      have := hfind 1 _ ⟨ht, by omega, _, hm, rfl⟩
      have hfar := Cache.second_slot (Nat.pos_of_ne_zero h0) hw.1
      rw [hnum] at this
      unfold blockSize sizeofSlab at *
      omega
    · exact h1 h1'
  · intro hn i p hslot
    refine h.header hc ho ?_ hslot
    unfold Cache.InPage
    rw [hnum]
    exact hpage.2 hn

namespace SlabClient

variable {s s' : SlabClient}

/-- The caches of the clients have the slabs that `getOrder` chooses, of at most `2 ^ 12` pages. -/
def Sized (s : SlabClient) : Prop :=
  ∀ c ∈ s.handles, (s.kmem.cache c).slotSize + 76 ≤ 2 ^ 12 * blockSize ∧
    Cache.getOrder (s.kmem.cache c).slotSize =
      some ((s.kmem.cache c).slabOrder, (s.kmem.cache c).objNum)

theorem Shaped.sized {op : SlabCall} (h : Shaped s op s') (hok : s.Ok op) (hs : s.Sized) :
    s'.Sized := by
  intro a ha
  rcases h a ha with ⟨ha', he⟩ | ⟨size, ctor, dtor, o, rfl, he, ho⟩
  · rw [show (s'.kmem.cache a).slotSize = _ from (congrArg Cache.slotSize he :),
      show (s'.kmem.cache a).slabOrder = _ from (congrArg Cache.slabOrder he :),
      show (s'.kmem.cache a).objNum = _ from (congrArg Cache.objNum he :)]
    exact hs a ha'
  · rw [show (s'.kmem.cache a).slotSize = size from (congrArg Cache.slotSize he :),
      show (s'.kmem.cache a).slabOrder = o from (congrArg Cache.slabOrder he :),
      show (s'.kmem.cache a).objNum = Cache.slotsOf size o from (congrArg Cache.objNum he :)]
    exact ⟨hok.2, ho⟩

theorem run_sized {ops : List SlabCall} (h : ∃ V, s.Inv V extra) (hs : s.Sized)
    (hrun : Run Ok SlabClient.step s ops s') : (∃ V, s'.Inv V extra) ∧ s'.Sized := by
  refine hrun.inv (fun s => (∃ V, s.Inv V extra) ∧ s.Sized) ?_ ⟨h, hs⟩
  intro s₁ op s₂ h₁ hok hstep
  obtain ⟨⟨V, hi⟩, hs₁⟩ := h₁
  obtain ⟨V', hi', hk⟩ := hi.step (.inl hok) hstep
  exact ⟨⟨V', hi'⟩, hk.shaped.sized hok hs₁⟩

/-- **Objects find their headers.** In every state of a run, all slots of a slab find its header iff
the size of the cache does not straddle; then a live object goes back to its cache without an
error. -/
theorem finds_header_iff {heap : HeapBounds} {space : Nat} {blockNum : Int} {ops : List SlabCall}
    (hinit : kmem_init heap 12 space blockNum = some k)
    (hrun : Run Ok SlabClient.step (boot k) ops s) :
    ∃ V, s.Inv V [] ∧ ∀ c ∈ s.handles,
      (∀ t ∈ V.slabs c, (∀ i p, Slot s.kmem V c t i p → p / blockSize * blockSize = t) ↔
        ¬ Straddles (s.kmem.cache c).slotSize) ∧
      (¬ Straddles (s.kmem.cache c).slotSize → ∀ p, (c, p) ∈ s.live →
        (∃ t i, Slot s.kmem V c t i p ∧ p / blockSize * blockSize = t) ∧
        ∃ k', kmem_cache_free s.kmem c (some p) = some k' ∧
          (k'.cache c).error = (s.kmem.cache c).error) := by
  obtain ⟨⟨V, h⟩, hs⟩ := run_sized (boot_inv hinit)
    (fun _ hc => absurd hc List.not_mem_nil) hrun
  refine ⟨V, h, fun c hc => ?_⟩
  obtain ⟨hcm, ho, -⟩ := h.user c hc
  obtain ⟨hsize, horder⟩ := hs c hc
  have hiff : ∀ t ∈ V.slabs c, _ := fun t ht => h.whole.header_iff hcm ho ht hsize horder
  refine ⟨hiff, fun hn p hl => ?_⟩
  obtain ⟨t, i, hslot, -⟩ := (h.live c hc p).1 hl
  have hhead := (hiff t hslot.slab).2 hn i p hslot
  have hpage : (s.kmem.cache c).InPage := by
    obtain ⟨o, horder', -⟩ := Cache.getOrder_spec (hsize.trans (by decide))
    rw [horder, Option.some.injEq, Prod.mk.injEq] at horder'
    obtain ⟨rfl, hnum⟩ := horder'
    unfold Cache.InPage
    rw [hnum]
    exact (Cache.inPage_iff hsize (hnum ▸ horder)).2 hn
  obtain ⟨k', V', he, -⟩ := h.free hc hl hpage
  refine ⟨⟨t, i, hslot, hhead⟩, k', he, Slab.putObject_error ?_ he c⟩
  rw [hhead]
  exact h.whole.owner hcm hslot.slab

theorem finds_header_iff_heap128 : ∃ k s,
    kmem_init Buddy.heap128 12 Buddy.heap128.startAddr 4096 = some k ∧
    Run Ok SlabClient.step (boot k) [.create 4100 none none, .alloc 2147554976] s ∧
    ∃ V, ∀ p, (2147554976, p) ∈ s.live → ∃ t i, Slot s.kmem V 2147554976 t i p ∧
      p / blockSize * blockSize = t := by
  obtain ⟨k, s₁, s, hk, h₁, h₂, hc, hsize⟩ : ∃ k s₁ s,
      kmem_init Buddy.heap128 12 Buddy.heap128.startAddr 4096 = some k ∧
      SlabClient.step (boot k) (.create 4100 none none) = some s₁ ∧
      s₁.step (.alloc 2147554976) = some s ∧ 2147554976 ∈ s₁.handles ∧
      2147554976 ∈ s.handles ∧ (s.kmem.cache 2147554976).slotSize = 4100 :=
    ⟨_, _, _, rfl, rfl, rfl, by decide +kernel⟩
  have hrun : Run Ok SlabClient.step (boot k) [.create 4100 none none, .alloc 2147554976] s :=
    .cons ⟨by decide, by decide⟩ h₁ (.cons hc h₂ .nil)
  obtain ⟨V, -, h⟩ := finds_header_iff hk hrun
  have hn : ¬ Straddles 4100 := by decide
  exact ⟨k, s, hk, hrun, V, fun p hp => ((h _ hsize.1).2 (hsize.2 ▸ hn) p hp).1⟩

/-- The second of two objects of 4021 bytes: its slab `t` is the only one of the cache. -/
theorem finds_header_fails : ∃ k s t p,
    kmem_init Buddy.heap128 12 Buddy.heap128.startAddr 4096 = some k ∧
    Run Ok SlabClient.step (boot k)
      [.create 4021 none none, .alloc 2147554976, .alloc 2147554976] s ∧
    (s.kmem.cache 2147554976).slabOrder ≤ 12 ∧ (2147554976, p) ∈ s.live ∧
    (s.kmem.cache 2147554976).slabsFull = some t ∧ (s.kmem.slab t).next = none ∧
    (s.kmem.cache 2147554976).slabsPartial = none ∧ (s.kmem.cache 2147554976).slabsFree = none ∧
    (s.kmem.slab t).owner = some 2147554976 ∧
    (∃ m, (s.kmem.slab t).mem = some m ∧ p = m + 1 * (s.kmem.cache 2147554976).slotSize) ∧
    p / blockSize * blockSize ≠ t := by
  obtain ⟨k, s₁, s₂, s, hk, h₁, h₂, h₃, hc, hc', h⟩ : ∃ k s₁ s₂ s,
      kmem_init Buddy.heap128 12 Buddy.heap128.startAddr 4096 = some k ∧
      SlabClient.step (boot k) (.create 4021 none none) = some s₁ ∧
      s₁.step (.alloc 2147554976) = some s₂ ∧ s₂.step (.alloc 2147554976) = some s ∧
      2147554976 ∈ s₁.handles ∧ 2147554976 ∈ s₂.handles ∧
      (s.kmem.cache 2147554976).slabOrder ≤ 12 ∧ (2147554976, 2147565573) ∈ s.live ∧
      (s.kmem.cache 2147554976).slabsFull = some 2147561472 ∧
      (s.kmem.slab 2147561472).next = none ∧ (s.kmem.cache 2147554976).slabsPartial = none ∧
      (s.kmem.cache 2147554976).slabsFree = none ∧ (s.kmem.slab 2147561472).owner = some 2147554976 ∧
      (s.kmem.slab 2147561472).mem = some 2147561552 ∧
      2147565573 = 2147561552 + 1 * (s.kmem.cache 2147554976).slotSize :=
    ⟨_, _, _, _, rfl, rfl, rfl, rfl, by decide +kernel⟩
  obtain ⟨ho, hl, hfull, hnext, hpart, hfree, howner, hm, hp⟩ := h
  refine ⟨k, s, 2147561472, 2147565573, hk, ?_, ho, hl, hfull, hnext, hpart, hfree, howner,
    ⟨_, hm, hp⟩, by decide⟩
  exact .cons ⟨by decide, by decide⟩ h₁ (.cons hc h₂ (.cons hc' h₃ .nil))

end SlabClient

end SlabKernel
