import SlabKernel.Slab.Client

/-!
# `kmem_init`

`CachePoolInit` makes the first record (`CachePoolInit_whole`) and `SlabInit` the descriptor cache of
each size class (`SlabInitLoop_booted`); the record has slots for all of them. After `kmem_init` the
clients have nothing, and every run of admitted calls keeps the invariant (`SlabClient.run_inv`), with
all records on the list if no creation fails (`SlabClient.run_unbroken`).
-/

namespace SlabKernel

open Function (update update_self update_of_ne update_eq_self)
open PtrList CachePool Runs

variable {k k' : Kmem} {V V' : View} {extra : List (Nat × Nat)} {c : Nat}

/-- One record and no cache. -/
def View.init (r : Nat) : View where
  caches := []
  lists _ _ := []
  chain _ := []
  records := [r]
  listed := [r]
  slots _ := allSlots r

theorem CachePoolInit_whole {b : Buddy} (hb : Buddy.Inv b []) (hstart : blockSize ∣ b.kernelStartAddr)
    (h : CachePoolInit (.reset b) = some k) :
    ∃ r, k.Whole (.init r) [] ∧ Unbroken k (.init r) ∧ k.memBuffSlabs = (fun _ => none) ∧
      k.memoryBuffers = fun _ => none := by
  rcases hb.alloc 0 with hn | ⟨r, b', hs, hg, -, -, hinv⟩
  · unfold CachePoolInit createRecord at h
    simp only [Kmem.reset, hn, Option.bind_eq_bind, Option.bind_some,
      Option.bind_none, reduceCtorEq] at h
  · obtain ⟨f, he, hf, -⟩ := createRecord_spec (k := .reset b) hs
    unfold CachePoolInit at h
    simp only [he, Option.bind_eq_bind, Option.bind_some, pure, Option.some.injEq] at h
    subst h
    refine ⟨r, ⟨⟨⟨List.nodup_nil, ?_, ?_, ?_, hinv, hg.start ▸ hstart⟩, ?_, ?_⟩, ?_, ?_⟩,
      ⟨rfl, Option.some_ne_none r⟩, rfl, rfl⟩
    · exact ⟨fun _ hc => absurd hc List.not_mem_nil, fun _ _ hi => (nomatch hi),
        fun _ _ hi => (nomatch hi)⟩
    · exact fun _ hc => absurd hc List.not_mem_nil
    · exact fun _ hc => absurd hc List.not_mem_nil
    · refine ⟨⟨rfl, rfl⟩, ⟨rfl, ?_⟩, fun t ht => ht, List.Subset.refl _, List.nodup_singleton r,
        fun u hu => ?_, fun _ hc => absurd hc List.not_mem_nil⟩
      · simp only [update_self]
        rfl
      · obtain rfl := List.mem_singleton.1 hu
        refine ⟨by simp only [update_self]; rfl, ?_, ?_, fun a ha => mem_allSlots.1 ha⟩
        · simp only [update_self, newRecord, View.init, allSlots, List.length_map, List.length_range]
        · simp only [update_self]
          exact hf
    · refine ⟨fun u hu j hj hnot => absurd ?_ hnot, fun u hu hh => absurd ?_ hh⟩
      · obtain rfl := List.mem_singleton.1 hu
        exact mem_allSlots.2 ⟨j, hj, rfl⟩
      · rw [List.mem_singleton.1 hu]
        rfl
    · exact fun _ _ hi => nomatch hi
    · exact fun _ _ hi => nomatch hi

/-- A cache becomes the descriptor cache of a class that has none. -/
theorem Kmem.Whole.descriptor {i : Nat} (h : k.Whole V extra) (hc : c ∈ V.caches)
    (ho : (k.cache c).IsObject) (horder : (k.cache c).slabOrder = 0)
    (hsize : (k.cache c).slotSize = sizeofSlab + numObjects i * 4) (hi : i < bufferNum)
    (hnone : k.memBuffSlabs i = none) :
    ({ k with memBuffSlabs := update k.memBuffSlabs i (some c) } : Kmem).Whole V extra := by
  have hkeep : ∀ j d, k.memBuffSlabs j = some d → update k.memBuffSlabs i (some c) j = some d := by
    intro j d hd
    rw [update_of_ne fun hj => ?_, hd]
    rw [hj, hnone] at hd
    cases hd
  have hcases : ∀ j d, update k.memBuffSlabs i (some c) j = some d →
      j = i ∧ d = c ∨ k.memBuffSlabs j = some d := by
    intro j d hd
    by_cases hj : j = i
    · subst hj
      rw [update_self, Option.some.injEq] at hd
      exact .inl ⟨rfl, hd.symm⟩
    · rw [update_of_ne hj] at hd
      exact .inr hd
  have hframe : Frame k { k with memBuffSlabs := update k.memBuffSlabs i (some c) } V V
      fun _ => False :=
    ⟨fun _ ha _ => ha, fun _ _ _ => rfl, fun _ _ _ => rfl, fun _ _ _ _ _ => rfl,
      fun _ _ _ _ _ => rfl⟩
  have hinv := h.of_frame hframe h.nodup ⟨h.classes.kind, h.classes.buffer, fun j d hd hdm => ?_⟩
    (fun j d hd _ => ⟨hkeep j d hd, not_false⟩) (fun a ha => .inl ⟨ha, not_false⟩) h.buddy rfl
  · refine { hinv with
      pool := h.pool.congr rfl fun _ _ => ⟨rfl, rfl⟩
      tight := h.tight
      buffers := h.buffers
      descriptors := fun j d hd => ?_ }
    rcases hcases j d hd with ⟨-, rfl⟩ | hd
    · exact hc
    · exact h.descriptors j d hd
  · rcases hcases j d hd with ⟨rfl, rfl⟩ | hd
    · exact ⟨hi, ho, horder, hsize⟩
    · exact h.classes.descriptor j d hd hdm

/-- The descriptor caches of the first `i` classes exist, and no other cache. -/
structure Booted (k : Kmem) (V : View) (i : Nat) : Prop where
  whole : k.Whole V []
  unbroken : Unbroken k V
  count : V.caches.length = i
  ready : ∀ j, k.memBuffSlabs j ≠ none ↔ j < i
  apart : ∀ i j c, k.memBuffSlabs i = some c → k.memBuffSlabs j = some c → i = j
  caches : ∀ c ∈ V.caches, ∃ j, k.memBuffSlabs j = some c
  noBuffer : ∀ j, k.memoryBuffers j = none
  empty : ∀ c ∈ V.caches, V.slabs c = []

theorem SlabInitLoop_booted {n i : Nat} (h : Booted k V i) (hn : i + n = bufferNum)
    (hk : SlabInitLoop n i k = some k') : ∃ V', Booted k' V' bufferNum := by
  induction n generalizing i k V with
  | zero =>
    obtain rfl := Option.some.inj hk
    obtain rfl : i = bufferNum := hn
    exact ⟨V, h⟩
  | succ n ih =>
    unfold SlabInitLoop at hk
    simp only [Option.bind_eq_bind] at hk
    obtain ⟨⟨c, k₁⟩, he, hk⟩ := Option.bind_eq_some_iff.1 hk
    have hsmall : numObjects i ≤ 128 := by
      have : ∀ i < bufferNum, numObjects i ≤ 128 := by decide
      exact this i (by omega)
    have hsize : sizeofSlab + numObjects i * 4 ≤ 4020 := by
      unfold sizeofSlab
      omega
    -- the first record still has a free slot
    have havail : k.Available := h.whole.pool.available h.whole.tight h.whole.records_length
      (h.whole.pool.listed_ne_nil h.unbroken) (by
        have hnum : bufferNum < slotNum := by decide
        rw [h.count]
        omega)
    rcases h.whole.create none none (Cache.getOrder_object hsize) with
      ⟨ha, -⟩ | ⟨-, c', k₁', V₁, he', hcr, hbufs, hdescs⟩
    · exact absurd havail ha
    rw [show (if blockSize < 2 ^ (minBuffOrder + i) then 1
      else blockSize / 2 ^ (minBuffOrder + i)) = numObjects i from rfl, he', Option.some.injEq,
      Prod.mk.injEq] at he
    obtain ⟨rfl, rfl⟩ := he
    have hpos : 1 ≤ Cache.slotsOf (sizeofSlab + numObjects i * 4) 0 := by
      unfold Cache.slotsOf
      rw [Nat.one_le_div_iff (by omega)]
      unfold blockSize sizeofSlab at *
      omega
    have hw := hcr.object h.whole (Nat.le_add_right_of_le (by decide)) (Nat.zero_le _)
      ⟨hpos, (Cache.slotsOf_le (.inl rfl)).trans_lt (by decide)⟩ hbufs hdescs
    have hnone : k₁'.memBuffSlabs i = none := by
      rw [hdescs]
      exact not_not.1 fun hne => absurd ((h.ready i).1 hne) (Nat.lt_irrefl i)
    have hw' := hw.descriptor (hcr.mem.2 (.inr rfl)) (hcr.isObject (Nat.le_add_right_of_le (by decide))
        (Nat.zero_le _))
      (congrArg Cache.slabOrder hcr.cache :) (congrArg Cache.slotSize hcr.cache :)
      (show i < bufferNum by omega) hnone
    refine ih (V := V₁) ⟨hw', hcr.unbroken h.unbroken, ?_, fun j => ?_, fun a b d ha hb => ?_,
      fun a ha => ?_, fun j => ?_, fun a ha => ?_⟩ (by omega) hk
    · rw [hcr.caches, List.length_append, h.count, List.length_singleton]
    · by_cases hj : j = i
      · subst hj
        simp only [update_self, ne_eq, reduceCtorEq, not_false_eq_true, true_iff]
        omega
      · simp only [update_of_ne hj, hdescs]
        rw [h.ready j]
        omega
    · -- the new cache is none of the old ones
      have hold : ∀ j, k₁'.memBuffSlabs j ≠ some c' := fun j hj =>
        hcr.new (h.whole.descriptors j c' (hdescs ▸ hj))
      by_cases hai : a = i
      · by_cases hbi : b = i
        · rw [hai, hbi]
        · subst hai
          simp only [update_self, update_of_ne hbi, Option.some.injEq] at ha hb
          exact absurd (ha ▸ hb) (hold b)
      · by_cases hbi : b = i
        · subst hbi
          simp only [update_self, update_of_ne hai, Option.some.injEq] at ha hb
          exact absurd (hb ▸ ha) (hold a)
        · simp only [update_of_ne hai, update_of_ne hbi] at ha hb
          exact h.apart a b d (hdescs ▸ ha) (hdescs ▸ hb)
    · rcases hcr.mem.1 ha with ha | rfl
      · obtain ⟨j, hj⟩ := h.caches a ha
        have hji : j ≠ i := fun he => by
          rw [he, ← hdescs, hnone] at hj
          cases hj
        exact ⟨j, by simp only [update_of_ne hji, hdescs, hj]⟩
      · exact ⟨i, update_self _ _ _⟩
    · exact (congrFun hbufs j).trans (h.noBuffer j)
    · rcases hcr.mem.1 ha with ha | rfl
      · exact (hcr.frame.slabs ha not_false).trans (h.empty a ha)
      · exact hcr.slabs

/-! ## Runs -/

namespace SlabClient

/-- The clients after `kmem_init`. -/
def boot (k : Kmem) : SlabClient := ⟨k, [], [], []⟩

theorem boot_booted {heap : HeapBounds} {space : Nat} {blockNum : Int}
    (h : kmem_init heap 12 space blockNum = some k) :
    ∃ V, Booted k V bufferNum ∧ (boot k).Inv V [] := by
  unfold kmem_init at h
  simp only [Option.bind_eq_bind] at h
  obtain ⟨⟨b, heap'⟩, hb, h⟩ := Option.bind_eq_some_iff.1 h
  obtain ⟨k₁, hk₁, h⟩ := Option.bind_eq_some_iff.1 h
  obtain ⟨r, hw, hu, hdescs, hbufs⟩ :=
    CachePoolInit_whole (.init hb) (Buddy.buddyInit_start hb) hk₁
  have hboot : Booted k₁ (.init r) 0 := by
    refine ⟨hw, hu, rfl, fun j => ?_, fun i j c hi => ?_, fun _ hc => absurd hc List.not_mem_nil,
      fun j => ?_, fun _ hc => absurd hc List.not_mem_nil⟩
    · simp only [hdescs, ne_eq, not_true_eq_false, Nat.not_lt_zero]
    · rw [hdescs] at hi
      cases hi
    · rw [hbufs]
  obtain ⟨V, hV⟩ := SlabInitLoop_booted hboot (Nat.zero_add _) h
  refine ⟨V, hV, hV.whole, fun i hi => (hV.ready i).2 hi, hV.apart,
    fun c hc => .inr (.inl (hV.caches c hc)), List.nodup_nil, fun _ hc => absurd hc List.not_mem_nil, List.nodup_nil,
    fun _ hq => absurd hq List.not_mem_nil, fun _ hc => absurd hc List.not_mem_nil, List.nodup_nil,
    fun _ hq => absurd hq List.not_mem_nil, fun i p hp => ?_⟩
  obtain ⟨c, hc, -⟩ := hp
  have hnone := hV.noBuffer i
  rw [show (boot k).kmem = k from rfl, hnone] at hc
  cases hc

theorem boot_unbroken {heap : HeapBounds} {space : Nat} {blockNum : Int}
    (h : kmem_init heap 12 space blockNum = some k) :
    ∃ V, (boot k).Inv V [] ∧ Unbroken (boot k).kmem V := by
  obtain ⟨V, hb, hV⟩ := boot_booted h
  exact ⟨V, hV, hb.unbroken⟩

theorem boot_inv {heap : HeapBounds} {space : Nat} {blockNum : Int}
    (h : kmem_init heap 12 space blockNum = some k) : ∃ V, (boot k).Inv V [] := by
  obtain ⟨V, -, hV⟩ := boot_booted h
  exact ⟨V, hV⟩

variable {s s' : SlabClient}

/-- The caches outside of `S` keep their shape. -/
theorem Shaped.of_frame {S : Nat → Prop} {op : SlabCall} (h : s.Inv V extra)
    (hf : Frame s.kmem s'.kmem V V' S) (hold : ∀ a ∈ s'.handles, a ∈ s.handles ∧ ¬ S a) :
    Shaped s op s' := by
  intro a ha
  obtain ⟨ha', hS⟩ := hold a ha
  exact .inl ⟨ha', Cache.shape_of_unlinked (hf.cache a (h.user a ha').1 hS)⟩

theorem Shaped.of_fixed {op : SlabCall} (hh : s'.handles = s.handles)
    (hf : ∀ a, (s'.kmem.cache a).fixed = (s.kmem.cache a).fixed) : Shaped s op s' :=
  fun a ha => .inl ⟨hh ▸ ha, Cache.shape_of_fixed (hf a)⟩

/-- A request outside of the range of the size classes changes nothing. -/
theorem kmalloc_range {size : Nat} (h : size < minBuffSize ∨ size > maxBuffSize) :
    s.step (.kmalloc size) = some s := by
  unfold step SlabKernel.kmalloc allocateBuffer
  simp only [if_pos h]
  rfl

/-- Requests by powers of two are legal. -/
theorem Legal.pow (s : SlabClient) (i : Nat) : s.Legal (.kmalloc (2 ^ i)) := by
  by_cases hr : 2 ^ i < minBuffSize ∨ 2 ^ i > maxBuffSize
  · exact .inr ⟨_, rfl, hr⟩
  · have hi5 : 5 ≤ i := (Nat.pow_le_pow_iff_right (a := 2) (by decide)).1 (by
      unfold minBuffSize at hr
      omega)
    have hi17 : i ≤ 17 := (Nat.pow_le_pow_iff_right (a := 2) (by decide)).1 (by
      unfold maxBuffSize at hr
      omega)
    have hfit := fitsClass_pow (i := i - 5) (by unfold bufferNum; omega)
    rw [show minBuffOrder + (i - 5) = i by unfold minBuffOrder; omega] at hfit
    exact .inl ⟨by omega, by omega, fun _ => hfit⟩

/-- A legal request in the range of the size classes fits its class. -/
theorem Legal.kmalloc {size : Nat} (h : s.Legal (.kmalloc size))
    (hr : ¬ (size < minBuffSize ∨ size > maxBuffSize)) : s.Ok (.kmalloc size) := by
  rcases h with hok | ⟨size', he, hr'⟩
  · exact hok
  · injection he with he
    exact absurd (he ▸ hr') hr

/-- The caches that a call may change: the cache it is made on; for a buffer the cache of its class and,
when it is requested, that of the class's descriptors. -/
def Uses (s s' : SlabClient) : SlabCall → Nat → Prop
  | .create _ _ _, _ => False
  | .alloc cachep, c => c = cachep
  | .free cachep _, c => c = cachep
  | .destroy cachep, c => c = cachep
  | .shrink cachep, c => c = cachep
  | .kmalloc size, c => s'.kmem.memoryBuffers (getPowerOfTwo size) = some c ∨
    s.kmem.memBuffSlabs (getPowerOfTwo size) = some c
  | .kfree objp, c => ∃ size, (objp, size) ∈ s.buffers ∧
    s.kmem.memoryBuffers (getPowerOfTwo size) = some c

/-- What a legal call leaves alone, from the view `V` to the view `V'`: all caches but those that it
uses; the tables of the classes, if it is no request; the slabs of its class, if it gives a buffer
back. -/
structure Kept (s s' : SlabClient) (V V' : View) (op : SlabCall) : Prop where
  frame : Frame s.kmem s'.kmem V V' (Uses s s' op)
  tables : (∀ size, op ≠ .kmalloc size) → s'.kmem.memoryBuffers = s.kmem.memoryBuffers ∧
    s'.kmem.memBuffSlabs = s.kmem.memBuffSlabs
  slabs : ∀ p, op = .kfree p → ∀ c, Uses s s' op c → (V'.slabs c).Perm (V.slabs c)
  shaped : Shaped s op s'
  unbroken : s.Fed op → Unbroken s.kmem V → Unbroken s'.kmem V'

/-- A call that serves the cache `c`. -/
theorem Kept.served {op : SlabCall} (hs : Served s.kmem s'.kmem V V' extra (· = c))
    (hh : s'.handles = s.handles) (hop : ∀ p, op ≠ .kfree p) (hc : ∀ a, a = c → Uses s s' op a) :
    Kept s s' V V' op := by
  obtain ⟨-, -, -, -, -, -, hbufs, hdescs⟩ := Kmem.pool_eq hs.pool
  exact ⟨hs.frame.mono hc, fun _ => ⟨hbufs, hdescs⟩, fun p hp => absurd hp (hop p),
    .of_fixed hh hs.fixed, fun _ => hs.unbroken.2⟩

namespace Inv

theorem step_create {size : Nat} {ctor dtor : Ptr} (h : s.Inv V extra)
    (hok : s.Ok (.create size ctor dtor)) (hs : s.step (.create size ctor dtor) = some s') :
    ∃ V', s'.Inv V' extra ∧ Kept s s' V V' (.create size ctor dtor) := by
  rcases h.create ctor dtor hok.1 hok.2 with
    ⟨ha, k', V', he, hi, hf⟩ | ⟨-, c, k', V', o, he, hi, hu, hf, -, hc, ho, -, hbufs, hdescs⟩
  · simp only [SlabClient.step, he, Option.map_some, Option.some.injEq, Option.toList_none,
      List.append_nil] at hs
    subst hs
    obtain ⟨-, -, hbufs, hdescs, -⟩ := hf.caches
    exact ⟨V', hi, hf.frame, fun _ => ⟨hbufs, hdescs⟩, fun p hp => (nomatch hp),
      .of_frame h hf.frame fun a ha => ⟨ha, not_false⟩, fun hfed => absurd hfed ha⟩
  · simp only [SlabClient.step, he, Option.map_some, Option.some.injEq, Option.toList_some] at hs
    subst hs
    refine ⟨V', hi, hf, fun _ => ⟨hbufs, hdescs⟩, fun p hp => (nomatch hp), fun a ha => ?_,
      fun _ => hu⟩
    rcases List.mem_append.1 ha with ha | ha
    · exact .inl ⟨ha, Cache.shape_of_unlinked (hf.cache a (h.user a ha).1 not_false)⟩
    · rw [List.mem_singleton.1 ha]
      exact .inr ⟨size, ctor, dtor, o, rfl, (congrArg Cache.shape hc :), ho⟩

theorem step_kmalloc {size : Nat} (h : s.Inv V extra) (hok : s.Ok (.kmalloc size))
    (hs : s.step (.kmalloc size) = some s') :
    ∃ V', s'.Inv V' extra ∧ Kept s s' V V' (.kmalloc size) := by
  rcases h.kmalloc hok.1 hok.2.1 hok.2.2 with
    ⟨-, -, he⟩ | ⟨r, k', V', c, d, he, hi, hu, hf, hS, hbufs, hd, -⟩
  · simp only [SlabClient.step, he, Option.map_none, reduceCtorEq] at hs
  simp only [SlabClient.step, he, Option.map_some, Option.some.injEq] at hs
  subst hs
  refine ⟨V', hi, hf.mono fun a ha => ?_, fun hop => absurd rfl (hop size), fun p hp => (nomatch hp),
    .of_frame h hf fun a ha => ⟨ha, hS a ha⟩, fun _ => hu⟩
  rcases ha with rfl | rfl
  · left
    rw [hbufs]
    exact update_self _ _ _
  · exact .inr hd

theorem step_kfree {p : Nat} (h : s.Inv V extra) (hok : s.Ok (.kfree p))
    (hs : s.step (.kfree p) = some s') :
    ∃ V', s'.Inv V' extra ∧ Kept s s' V V' (.kfree p) := by
  obtain ⟨i, c, k', V', he, hi, hserved, hc, hperm, size, hb, rfl⟩ := h.kfree hok
  simp only [SlabClient.step, he, Option.map_some, Option.some.injEq] at hs
  subst hs
  obtain ⟨-, -, -, -, -, -, hbufs, hdescs⟩ := Kmem.pool_eq hserved.pool
  refine ⟨V', hi, hserved.frame.mono fun a ha => ⟨size, hb, ha ▸ hc⟩, fun _ => ⟨hbufs, hdescs⟩,
    fun _ _ a ha => ?_, .of_fixed rfl hserved.fixed, fun _ => hserved.unbroken.2⟩
  by_cases hac : a = c
  · rw [hac]
    exact hperm
  · obtain ⟨size', -, ha⟩ := ha
    rw [hserved.frame.slabs (h.whole.buffers _ a ha) hac]

/-- A legal call that returns keeps the invariant, and leaves alone what it does not use. -/
theorem step {op : SlabCall} (h : s.Inv V extra) (hok : s.Legal op)
    (hs : s.step op = some s') : ∃ V', s'.Inv V' extra ∧ Kept s s' V V' op := by
  rcases hok with hok | ⟨size, rfl, hr⟩
  · cases op with
    | create size ctor dtor => exact h.step_create hok hs
    | alloc c =>
      obtain ⟨r, k', V', he, hi, hserved, -⟩ := h.alloc hok
      simp only [SlabClient.step, he, Option.map_some, Option.some.injEq] at hs
      subst hs
      exact ⟨V', hi, Kept.served hserved rfl (fun p hp => nomatch hp) fun a ha => ha⟩
    | free c p =>
      obtain ⟨hc, c', hp, hpage⟩ := hok
      by_cases hcc : c = c'
      · subst hcc
        obtain ⟨k', V', he, hi, hserved, -⟩ := h.free hc hp hpage
        simp only [SlabClient.step, he, Option.map_some, Option.some.injEq] at hs
        subst hs
        exact ⟨V', hi, Kept.served hserved rfl (fun p hp => nomatch hp) fun a ha => ha⟩
      · obtain ⟨he, hi⟩ := h.free_wrong hc hp hpage hcc
        simp only [SlabClient.step, he, Option.map_some, Option.some.injEq] at hs
        subst hs
        exact ⟨V, hi, Kept.served (h.whole.setError (h.user c hc).1 (-3)) rfl
          (fun p hp => nomatch hp) fun a ha => ha⟩
    | destroy c =>
      rcases h.destroy hok with ⟨-, he⟩ | ⟨k', V', he, hi, hu, hf, -, hbufs, hdescs, -⟩
      · simp only [SlabClient.step, he, Option.map_none, reduceCtorEq] at hs
      simp only [SlabClient.step, he, Option.map_some, Option.some.injEq] at hs
      subst hs
      refine ⟨V', hi, hf, fun _ => ⟨hbufs, hdescs⟩, fun p hp => (nomatch hp), .of_frame h hf
        fun a ha => ?_, fun _ => hu⟩
      obtain ⟨hac, ham⟩ := h.handles.mem_erase_iff.1 ha
      exact ⟨ham, hac⟩
    | shrink c =>
      obtain ⟨k', he, hi, hserved⟩ := h.shrink hok.1 hok.2
      simp only [SlabClient.step, he, Option.map_some, Option.some.injEq] at hs
      subst hs
      exact ⟨V, hi, Kept.served hserved rfl (fun p hp => nomatch hp) fun a ha => ha⟩
    | kmalloc size => exact h.step_kmalloc hok hs
    | kfree p => exact h.step_kfree hok hs
  · rw [kmalloc_range hr, Option.some.injEq] at hs
    subst hs
    exact ⟨V, h, .refl _ V _, fun _ => ⟨rfl, rfl⟩, fun p hp => (nomatch hp),
      .of_fixed rfl fun _ => rfl, fun _ => id⟩

end Inv

theorem run_inv {ops : List SlabCall} (h : ∃ V, s.Inv V extra) (hrun : Run Ok SlabClient.step s ops s') :
    ∃ V, s'.Inv V extra := by
  refine hrun.inv (fun s => ∃ V, s.Inv V extra) ?_ h
  rintro s₁ op s₂ ⟨V, h₁⟩ hok hs
  obtain ⟨V', h₂, -⟩ := h₁.step (.inl hok) hs
  exact ⟨V', h₂⟩

/-- If no creation fails, no record is lost. -/
theorem run_unbroken {ops : List SlabCall} (h : ∃ V, s.Inv V extra ∧ Unbroken s.kmem V)
    (hrun : Run (fun s op => s.Ok op ∧ s.Fed op) SlabClient.step s ops s') :
    ∃ V, s'.Inv V extra ∧ Unbroken s'.kmem V := by
  refine hrun.inv (fun s => ∃ V, s.Inv V extra ∧ Unbroken s.kmem V) ?_ h
  rintro s₁ op s₂ ⟨V, h₁, hu⟩ hok hs
  obtain ⟨V', h₂, hk⟩ := h₁.step (.inl hok.1) hs
  exact ⟨V', h₂, hk.unbroken hok.2 hu⟩

end SlabClient

end SlabKernel
