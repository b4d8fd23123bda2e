import SlabKernel.Slab.Boot

/-!
# The pool of caches

Runs of creations and destructions of caches after `CachePoolInit`, while other users take blocks
of the buddy allocator and give them back. The caches have no slabs here, so the invariant is that
of the pool and of the blocks of its records (`PoolClient.Inv`); `cache_pool_invariant` spells it out.

A creation that finds neither a free slot nor a page for a record returns null and loses the tail of
the list of records: `allocateSlot` leaves the pool as it is iff the slot is available
(`failed_creation_iff`). The runs stop before such a creation.
-/

namespace SlabKernel

open Function (update update_self update_of_ne)
open PtrList CachePool Runs

/-- The pool, its caches in the order of their creation, and the blocks of other users. -/
structure PoolClient where
  kmem : Kmem
  caches : List Nat
  others : List (Nat × Nat)

inductive PoolCall
  | create (size : Nat) (ctor dtor : Ptr)
  | destroy (cachep : Nat)
  | take (order : Nat)
  | give (addr order : Nat)

/-- A failing `allocateSlot` leaves the pool as it is. -/
def Kmem.Intact (k : Kmem) : Prop :=
  ∀ k', allocateSlot k = some (none, k') →
    k'.head = k.head ∧ k'.tail = k.tail ∧ k'.record = k.record ∧ k'.freeLink = k.freeLink

namespace PoolClient

def step (s : PoolClient) : PoolCall → Option PoolClient
  | .create size ctor dtor => (kmem_cache_create s.kmem size ctor dtor).map fun r =>
    { s with kmem := r.2, caches := s.caches ++ r.1.toList }
  | .destroy cachep => (kmem_cache_destroy s.kmem (some cachep)).map fun k =>
    { s with kmem := k, caches := s.caches.erase cachep }
  | .take order =>
    let r := s.kmem.buddy.alloc order
    some { s with
      kmem := { s.kmem with buddy := r.2 }
      others := r.1.toList.map (·, order) ++ s.others }
  | .give addr order => (s.kmem.free (some addr) order).map fun k =>
    { s with kmem := k, others := s.others.erase (addr, order) }

/-- No creation runs out of memory; live caches are destroyed and taken blocks given back. -/
def Ok (s : PoolClient) : PoolCall → Prop
  | .create _ _ _ => s.kmem.Available
  | .destroy cachep => cachep ∈ s.caches
  | .take _ => True
  | .give addr order => (addr, order) ∈ s.others

instance (s : PoolClient) : (op : PoolCall) → Decidable (s.Ok op)
  | .create _ _ _ => inferInstanceAs (Decidable s.kmem.Available)
  | .destroy cachep => inferInstanceAs (Decidable (cachep ∈ s.caches))
  | .take _ => .isTrue trivial
  | .give addr order => inferInstanceAs (Decidable ((addr, order) ∈ s.others))

/-- The pool of `s` represents `V`; its caches have no slabs. -/
structure Inv (s : PoolClient) (V : View) : Prop where
  pool : Pool s.kmem V
  unbroken : Unbroken s.kmem V
  tight : V.Tight
  caches : V.caches = s.caches
  empty : ∀ c ∈ s.caches, ∀ g, (s.kmem.cache c).first g = none
  buddy : Buddy.Inv s.kmem.buddy (V.records.map (·, 0) ++ s.others)
  start : blockSize ∣ s.kmem.buddy.kernelStartAddr

variable {s s' : PoolClient} {V V' : View} {k : Kmem} {c : Nat}

namespace Inv

/-- A failed creation spoils the pool. -/
theorem intact_iff (h : s.Inv V) : s.kmem.Intact ↔ s.kmem.Available := by
  rcases h.pool.allocateSlot h.buddy h.start with
    ⟨ha, k', V', he, hf⟩ | ⟨ha, c, k', V', he, -⟩
  · refine iff_of_false (fun hi => ?_) ha
    obtain ⟨head, rfl⟩ := hf.state
    obtain ⟨-, ht, -⟩ := hi _ he
    exact h.unbroken.2 ht.symm
  · refine iff_of_true (fun k' he' => ?_) ha
    rw [he, Option.some.injEq, Prod.mk.injEq] at he'
    cases he'.1

/-! ## Steps -/

theorem create {size : Nat} {ctor dtor : Ptr} (h : s.Inv V) (ha : s.kmem.Available)
    (hs : s.step (.create size ctor dtor) = some s') : ∃ V', s'.Inv V' := by
  unfold PoolClient.step at hs
  obtain ⟨⟨r, k'⟩, he, rfl⟩ := Option.map_eq_some_iff.1 hs
  -- the constructor has returned, so the loop of `getOrder` has ended
  obtain ⟨o, n, ho⟩ : ∃ o n, Cache.getOrder size = some (o, n) := by
    unfold kmem_cache_create at he
    simp only [Option.bind_eq_bind] at he
    obtain ⟨⟨slot, k₁⟩, hslot, he⟩ := Option.bind_eq_some_iff.1 he
    cases slot with
    | none =>
      rcases h.pool.allocateSlot h.buddy h.start with ⟨hn, -⟩ | ⟨-, c, k', V', he', -⟩
      · exact absurd ha hn
      · rw [he', Option.some.injEq, Prod.mk.injEq] at hslot
        cases hslot.1
    | some this =>
      obtain ⟨k₂, hk₂, -⟩ := Option.bind_eq_some_iff.1 he
      unfold Cache.construct at hk₂
      simp only [Option.bind_eq_bind] at hk₂
      obtain ⟨⟨o, n⟩, ho, -⟩ := Option.bind_eq_some_iff.1 hk₂
      exact ⟨o, n, ho⟩
  rcases h.pool.create ctor dtor h.buddy h.start ho with
    ⟨hn, -⟩ | ⟨-, c, k'', V', he', hcr, -⟩
  · exact absurd ha hn
  · rw [he', Option.some.injEq, Prod.mk.injEq] at he
    obtain ⟨rfl, rfl⟩ := he
    refine ⟨V', hcr.pool, hcr.unbroken h.unbroken, hcr.tight h.tight,
      hcr.caches.trans (congrArg (· ++ [c]) h.caches), fun a ha g => ?_, hcr.buddy,
      hcr.start ▸ h.start⟩
    rcases List.mem_append.1 ha with ha | ha
    · have hac : a ≠ c := fun he => hcr.new (h.caches ▸ he ▸ ha)
      rw [Cache.first_congr (hcr.other a hac)]
      exact h.empty a ha g
    · rw [List.mem_singleton.1 ha,
        Cache.first_congr (C := Cache.init size ctor dtor o n) hcr.cache]
      cases g <;> rfl

/-- A live cache can be destroyed: the record that it leaves without caches is on the list. -/
theorem destroy (h : s.Inv V) (hc : c ∈ s.caches) :
    ∃ s' V', s.step (.destroy c) = some s' ∧ s'.Inv V' := by
  have he : Cache.destroyCache s.kmem c = some s.kmem := by
    have hf := h.empty c hc .FREE
    have hp := h.empty c hc .PARTIAL
    have hu := h.empty c hc .FULL
    simp only [Cache.first] at hf hp hu
    unfold Cache.destroyCache
    simp only [hf, hp, hu, Cache.deallocSlabGroup, Option.bind_eq_bind, Option.bind_some]
  rcases h.pool.deallocateSlot h.start (h.caches ▸ hc) h.buddy with ⟨hl, -⟩ |
    ⟨k', records, listed, slots, he', hpool, htight, hunbroken, hsame, -, -, -, hb, hg, -⟩
  · exact absurd h.unbroken.1 hl
  have hnd := DQueue.nodup h.pool.caches
  refine ⟨{ s with kmem := k', caches := s.caches.erase c }, _, ?_, hpool, hunbroken h.unbroken,
    htight h.tight, congrArg (·.erase c) h.caches, fun a ha g => ?_, hb, hg ▸ h.start⟩
  · unfold PoolClient.step kmem_cache_destroy
    simp only [he, Option.bind_eq_bind, Option.bind_some, he', Option.map_some]
  · rw [h.caches] at hnd
    obtain ⟨hac, ham⟩ := hnd.mem_erase_iff.1 ha
    rw [Cache.first_congr (hsame a hac)]
    exact h.empty a ham g

/-- Other users of the buddy allocator do not touch the pool. -/
theorem withBuddy {b : Buddy} {others : List (Nat × Nat)} (h : s.Inv V)
    (hb : Buddy.Inv b (V.records.map (·, 0) ++ others))
    (hg : Buddy.SameGeom s.kmem.buddy b) :
    PoolClient.Inv { s with kmem := { s.kmem with buddy := b }, others } V :=
  ⟨h.pool.congr rfl fun _ _ => ⟨rfl, rfl⟩, h.unbroken, h.tight, h.caches, h.empty, hb, hg.start ▸ h.start⟩

theorem take {order : Nat} (h : s.Inv V) :
    ∃ s', s.step (.take order) = some s' ∧ s'.Inv V := by
  obtain ⟨hg, hinv⟩ := h.buddy.take order
  exact ⟨_, rfl, h.withBuddy hinv hg⟩

theorem give {addr order : Nat} (h : s.Inv V) (ho : (addr, order) ∈ s.others) :
    ∃ s', s.step (.give addr order) = some s' ∧ s'.Inv V := by
  obtain ⟨b, hb, hg, hinv⟩ := h.buddy.give ho
  unfold PoolClient.step Kmem.free
  simp only [hb, Option.map_some]
  exact ⟨_, rfl, h.withBuddy hinv hg⟩

end Inv

/-! ## Runs -/

theorem step_inv {op : PoolCall} (h : s.Inv V) (hok : s.Ok op) (hs : s.step op = some s') :
    ∃ V', s'.Inv V' := by
  cases op with
  | create size ctor dtor => exact h.create hok hs
  | destroy c =>
    obtain ⟨s₁, V', he, hi⟩ := h.destroy hok
    rw [he, Option.some.injEq] at hs
    exact ⟨V', hs ▸ hi⟩
  | take order =>
    obtain ⟨s₁, he, hi⟩ := h.take
    rw [he, Option.some.injEq] at hs
    exact ⟨V, hs ▸ hi⟩
  | give addr order =>
    obtain ⟨s₁, he, hi⟩ := h.give hok
    rw [he, Option.some.injEq] at hs
    exact ⟨V, hs ▸ hi⟩

/-- The pool after `CachePoolInit`. -/
def init (k : Kmem) : PoolClient := ⟨k, [], []⟩

theorem run_inv {heap heap' : HeapBounds} {space : Nat} {blockNum : Int} {b : Buddy}
    {ops : List PoolCall} (hinit : Buddy.buddyInit heap 12 space blockNum = some (b, heap'))
    (hpool : CachePoolInit (.reset b) = some k) (hrun : Run Ok step (init k) ops s) :
    ∃ V, s.Inv V := by
  refine hrun.inv (fun s => ∃ V, s.Inv V) ?_ ?_
  · intro s₁ op s₂ h hok hs
    obtain ⟨V, h⟩ := h
    exact step_inv h hok hs
  · obtain ⟨r, hw, hu, -⟩ := CachePoolInit_whole (.init hinit) (Buddy.buddyInit_start hinit) hpool
    refine ⟨_, hw.pool, hu, hw.tight, rfl, fun c hc => absurd hc List.not_mem_nil, ?_, hw.start⟩
    have hb := hw.buddy
    rw [show View.blocks (.init r) k = [(r, 0)] by simp [View.blocks, View.init]] at hb
    exact hb

/-- **Cache pool.** In every state of a run the records from `head` to `tail` are distinct pages; the
chain of a record visits its slots that no cache uses, and counts them; each cache lies in a slot of
the record found by masking its address; a record behind the first one has a cache; and the caches
from `cacheHead` to `cacheTail` are the live ones in the order of their creation. -/
theorem cache_pool_invariant {heap heap' : HeapBounds} {space : Nat} {blockNum : Int} {b : Buddy}
    {ops : List PoolCall} (hinit : Buddy.buddyInit heap 12 space blockNum = some (b, heap'))
    (hpool : CachePoolInit (.reset b) = some k) (hrun : Run Ok step (init k) ops s) :
    ∃ (records : List Nat) (slots : Nat → List Nat),
      Queue (fun r => (s.kmem.record r).next) s.kmem.head s.kmem.tail records ∧
      records.Nodup ∧ (∀ r ∈ records, blockSize ∣ r) ∧
      (∀ r ∈ records, Linked s.kmem.freeLink (s.kmem.record r).freeSlot (slots r) ∧
        (slots r).Nodup ∧ (s.kmem.record r).numOfFreeSlots = (slots r).length ∧
        (s.kmem.record r).numOfSlots = slotNum ∧
        ∀ a, a ∈ slots r ↔ (∃ j < slotNum, a = slotAddr r j) ∧ a ∉ s.caches) ∧
      (∀ c ∈ s.caches, c / blockSize * blockSize ∈ records ∧
        ∃ j < slotNum, c = slotAddr (c / blockSize * blockSize) j) ∧
      (∀ r ∈ records, s.kmem.head ≠ some r →
        (s.kmem.record r).numOfFreeSlots < (s.kmem.record r).numOfSlots) ∧
      DQueue (fun c => (s.kmem.cache c).next) (fun c => (s.kmem.cache c).prev) s.kmem.cacheHead
        s.kmem.cacheTail s.caches ∧ s.caches.Nodup := by
  obtain ⟨V, h⟩ := run_inv hinit hpool hrun
  have halign : ∀ r ∈ V.records, blockSize ∣ r := fun r hr => Pool.aligned h.buddy h.start hr
  have hused : ∀ c ∈ s.caches, ∃ r ∈ V.records, ∃ j < slotNum, c = slotAddr r j ∧ c ∉ V.slots r :=
    fun c hc => h.pool.used c (h.caches ▸ hc)
  have hcaches := h.pool.caches
  rw [h.caches] at hcaches
  have hslots : ∀ r ∈ V.records, ∀ a, a ∈ V.slots r ↔
      (∃ j < slotNum, a = slotAddr r j) ∧ a ∉ s.caches := by
    intro r hr a
    constructor
    · intro ha
      obtain ⟨j, hj, haj⟩ := (h.pool.free r hr).slots a ha
      refine ⟨⟨j, hj, haj⟩, fun hc => ?_⟩
      obtain ⟨u, hu, i, hi, hai, hnot⟩ := hused a hc
      have hur : u = r := by
        rw [← slotAddr_header (halign u hu) hi, ← slotAddr_header (halign r hr) hj, ← hai, ← haj]
      exact hnot (hur ▸ ha)
    · intro hand
      obtain ⟨⟨j, hj, rfl⟩, hc⟩ := hand
      by_contra hnot
      exact hc (h.caches ▸ h.tight.slots r hr j hj hnot)
  refine ⟨V.records, V.slots, h.pool.queue h.unbroken, h.pool.nodup, halign, fun r hr => ?_,
    fun c hc => ?_, fun r hr hhead => ?_, hcaches, DQueue.nodup hcaches⟩
  · have hrep := h.pool.free r hr
    exact ⟨hrep.chain, Linked.nodup hrep.chain, hrep.numOfFreeSlots, hrep.numOfSlots, hslots r hr⟩
  · obtain ⟨r, hr, j, hj, hcj, -⟩ := hused c hc
    rw [hcj, slotAddr_header (halign r hr) hj]
    exact ⟨hr, j, hj, rfl⟩
  · have hrep := h.pool.free r hr
    rw [hrep.numOfFreeSlots, hrep.numOfSlots]
    obtain ⟨j, hj, hc⟩ := h.tight.busy r hr fun hfirst =>
      hhead ((Linked.head? h.pool.listed).trans hfirst)
    refine Nat.lt_of_le_of_ne hrep.length_le fun hlen => ?_
    -- a record with all its slots free has no cache
    have hsub : V.slots r ⊆ allSlots r := fun x hx => mem_allSlots.2 (hrep.slots x hx)
    have hperm := ((Linked.nodup hrep.chain).subperm hsub).perm_of_length_le (by
      simp only [allSlots, List.length_map, List.length_range, hlen, Nat.le_refl])
    have hmem := hperm.mem_iff.2 (mem_allSlots.2 ⟨j, hj, rfl⟩)
    exact ((hslots r hr _).1 hmem).2 (h.caches ▸ hc)

theorem cache_pool_invariant_heap128 : ∃ b heap' k s,
    Buddy.buddyInit Buddy.heap128 12 Buddy.heap128.startAddr 4096 = some (b, heap') ∧
    CachePoolInit (.reset b) = some k ∧
    Run Ok step (init k) [.create 64 none none, .create 128 none none, .destroy 2147553312] s ∧
    DQueue (fun c => (s.kmem.cache c).next) (fun c => (s.kmem.cache c).prev) s.kmem.cacheHead
      s.kmem.cacheTail s.caches := by
  have h : ((Buddy.buddyInit Buddy.heap128 12 Buddy.heap128.startAddr 4096).bind fun r =>
      (CachePoolInit (.reset r.1)).bind fun k => exec Ok step (init k)
        [.create 64 none none, .create 128 none none, .destroy 2147553312]).isSome := by
    decide +kernel
  obtain ⟨s, hs⟩ := Option.isSome_iff_exists.1 h
  obtain ⟨⟨b, heap'⟩, hb, hs⟩ := Option.bind_eq_some_iff.1 hs
  obtain ⟨k, hk, hs⟩ := Option.bind_eq_some_iff.1 hs
  obtain ⟨-, -, -, -, -, -, -, -, hq, -⟩ := cache_pool_invariant hb hk (.of_exec hs)
  exact ⟨b, heap', k, s, hb, hk, .of_exec hs, hq⟩

/-- **Failed creations.** While no creation runs out of memory, the record of every cache stays on
the list and every cache can be destroyed, so that `destroyRecord` finds the record that it is given.
In each state reached, `allocateSlot` fails without a trace iff it does not fail. -/
theorem failed_creation_iff {heap heap' : HeapBounds} {space : Nat} {blockNum : Int} {b : Buddy}
    {ops : List PoolCall} (hinit : Buddy.buddyInit heap 12 space blockNum = some (b, heap'))
    (hpool : CachePoolInit (.reset b) = some k) (hrun : Run Ok step (init k) ops s) :
    (∃ records, Queue (fun r => (s.kmem.record r).next) s.kmem.head s.kmem.tail records ∧
      ∀ c ∈ s.caches, c / blockSize * blockSize ∈ records ∧
        ∃ s', s.step (.destroy c) = some s') ∧
    (s.kmem.Intact ↔ s.kmem.Available) := by
  obtain ⟨V, h⟩ := run_inv hinit hpool hrun
  refine ⟨⟨V.records, h.pool.queue h.unbroken, fun c hc => ⟨?_, ?_⟩⟩, h.intact_iff⟩
  · obtain ⟨r, hr, j, hj, hcj, -⟩ := h.pool.used c (h.caches ▸ hc)
    rw [hcj, slotAddr_header (Pool.aligned h.buddy h.start hr) hj]
    exact hr
  · obtain ⟨s', -, he, -⟩ := h.destroy hc
    exact ⟨s', he⟩

theorem failed_creation_iff_heap128 : ∃ b heap' k s,
    Buddy.buddyInit Buddy.heap128 12 Buddy.heap128.startAddr 4096 = some (b, heap') ∧
    CachePoolInit (.reset b) = some k ∧ Run Ok step (init k) [.create 64 none none] s ∧
    (s.kmem.Intact ↔ s.kmem.Available) := by
  have h : ((Buddy.buddyInit Buddy.heap128 12 Buddy.heap128.startAddr 4096).bind fun r =>
      (CachePoolInit (.reset r.1)).bind fun k => exec Ok step (init k)
        [.create 64 none none]).isSome := by
    decide +kernel
  obtain ⟨s, hs⟩ := Option.isSome_iff_exists.1 h
  obtain ⟨⟨b, heap'⟩, hb, hs⟩ := Option.bind_eq_some_iff.1 hs
  obtain ⟨k, hk, hs⟩ := Option.bind_eq_some_iff.1 hs
  exact ⟨b, heap', k, s, hb, hk, .of_exec hs, (failed_creation_iff hb hk (.of_exec hs)).2⟩

/-- Other users have every page but that of the only record, and its slots are in use. -/
def exhaust : List PoolCall :=
  (List.range 12).map .take ++ List.replicate slotNum (.create 64 none none)

/-- The next creation loses the tail. When a page is given back, the one after that drops the record
of the 31 caches from the list. -/
theorem failed_creation_drops : ∃ b heap' k s k' k₁ k₂ c,
    Buddy.buddyInit Buddy.heap128 12 Buddy.heap128.startAddr 4096 = some (b, heap') ∧
    CachePoolInit (.reset b) = some k ∧ Run Ok step (init k) exhaust s ∧
    allocateSlot s.kmem = some (none, k') ∧ (2147557376, 0) ∈ s.others ∧
    k'.free (some 2147557376) 0 = some k₁ ∧ allocateSlot k₁ = some (some c, k₂) ∧
    (s.kmem.head, s.kmem.tail) = (some 2147553280, some 2147553280) ∧ k'.tail = none ∧
    (k₂.head, k₂.tail) = (some 2147557376, some 2147557376) := by
  have h : ((Buddy.buddyInit Buddy.heap128 12 Buddy.heap128.startAddr 4096).bind fun r =>
      (CachePoolInit (.reset r.1)).bind fun k => (exec Ok step (init k) exhaust).bind fun s =>
      (allocateSlot s.kmem).bind fun r₁ => (r₁.2.free (some 2147557376) 0).bind fun k₁ =>
      (allocateSlot k₁).bind fun r₂ =>
        if r₁.1 = none ∧ (2147557376, 0) ∈ s.others ∧ r₂.1 ≠ none ∧
          (s.kmem.head, s.kmem.tail) = (some 2147553280, some 2147553280) ∧ r₁.2.tail = none ∧
          (r₂.2.head, r₂.2.tail) = (some 2147557376, some 2147557376)
        then some () else none) = some () := by
    decide +kernel
  obtain ⟨⟨b, heap'⟩, hb, h⟩ := Option.bind_eq_some_iff.1 h
  obtain ⟨k, hk, h⟩ := Option.bind_eq_some_iff.1 h
  obtain ⟨s, hs, h⟩ := Option.bind_eq_some_iff.1 h
  obtain ⟨⟨r₁, k'⟩, h₁, h⟩ := Option.bind_eq_some_iff.1 h
  obtain ⟨k₁, hk₁, h⟩ := Option.bind_eq_some_iff.1 h
  obtain ⟨⟨r₂, k₂⟩, h₂, h⟩ := Option.bind_eq_some_iff.1 h
  split at h
  · rename_i hall
    obtain ⟨rfl, hmem, hne, hs', ht, hk₂⟩ := hall
    obtain ⟨c, rfl⟩ := Option.ne_none_iff_exists'.1 hne
    exact ⟨b, heap', k, s, k', k₁, k₂, c, hb, hk, .of_exec hs, h₁, hmem, hk₁, h₂, hs', ht, hk₂⟩
  · cases h

end PoolClient

end SlabKernel
