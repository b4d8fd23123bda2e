import SlabKernel.Slab.Inv

/-!
# Allocation and deallocation keep the invariant

An allocation from the cache `c` returns a new live object or none (`Gave`), and a deallocation
takes one live object back (`Took`); both leave the other caches alone (`Served`).

* A slab with a free slot gives one (`Kmem.Inv.alloc_old`), whatever the kind of the cache.
* Without one, an object cache takes a page from the buddy allocator (`Kmem.Inv.alloc_object`).
* A live object goes back to its cache (`Kmem.Inv.free_object`); any other cache only records an
  error (`Kmem.Inv.free_wrong`).
-/

namespace SlabKernel

open Function (update update_self update_of_ne)
open PtrList

/-- An allocation from the cache `c` has returned `r`. -/
def Gave (k k' : Kmem) (V V' : View) (c : Nat) : Ptr → Prop
  | none => ∀ p, Live k' V' c p ↔ Live k V c p
  | some q => ¬ Live k V c q ∧ ∀ p, Live k' V' c p ↔ Live k V c p ∨ p = q

/-- The object at `q` has gone back to the cache `c`. -/
def Took (k k' : Kmem) (V V' : View) (c q : Nat) : Prop :=
  ∀ p, Live k' V' c p ↔ Live k V c p ∧ p ≠ q

/-- There is a slot of the cache `c` at `p`. -/
def IsSlot (k : Kmem) (V : View) (c p : Nat) : Prop := ∃ s i, Slot k V c s i p

/-- The slots of the slab that the next allocation from the object cache `c` adds. -/
def Kmem.newSlots (k : Kmem) (c : Nat) : List Nat :=
  if (k.cache c).slabsPartial = none ∧ (k.cache c).slabsFree = none then
    (k.buddy.alloc (k.cache c).slabOrder).1.elim [] fun s => (List.range (k.cache c).objNum).map
      fun i => s + sizeofSlab + 4 * (k.cache c).objNum + i * (k.cache c).slotSize
  else []

/-- The object cache `c` has a free slot, or there is a block for a slab. -/
def Kmem.Supply (k : Kmem) (c : Nat) : Prop :=
  (k.cache c).slabsPartial = none ∧ (k.cache c).slabsFree = none →
    (k.buddy.alloc (k.cache c).slabOrder).1 ≠ none

/-- The buddy allocator after the next allocation from the object cache `c`. -/
def Kmem.buddyAfter (k : Kmem) (c : Nat) : Buddy :=
  if (k.cache c).slabsPartial = none ∧ (k.cache c).slabsFree = none then
    (k.buddy.alloc (k.cache c).slabOrder).2
  else k.buddy

/-- An allocation from the object cache `c` has added slots. -/
structure Grew (k k' : Kmem) (V V' : View) (c : Nat) : Prop where
  slot : ∀ p, IsSlot k' V' c p ↔ IsSlot k V c p ∨ p ∈ k.newSlots c
  fresh : ∀ p ∈ k.newSlots c, ¬ IsSlot k V c p
  calls : k'.calls = k.calls ++ (k.cache c).ctor.elim [] fun f => (k.newSlots c).map (f, ·)

variable {k k' : Kmem} {V V' : View} {extra : List (Nat × Nat)} {c s i m p : Nat}
  {L : SlabGroup → List Nat} {ch : Nat → List Nat} {rest : List Nat}

theorem Grew.of_same (h : ∀ s i p, Slot k' V' c s i p ↔ Slot k V c s i p)
    (hnew : k.newSlots c = []) (hcalls : k'.calls = k.calls) : Grew k k' V V' c := by
  refine ⟨fun p => ?_, fun p hp => ?_, ?_⟩
  · simp only [hnew, List.not_mem_nil, or_false, IsSlot, h]
  · rw [hnew] at hp
    exact absurd hp List.not_mem_nil
  · rw [hcalls, hnew]
    cases (k.cache c).ctor <;> simp only [Option.elim, List.map_nil, List.append_nil]

theorem block_congr (hlay : (k'.cache c).layout = (k.cache c).layout)
    (hmem : (k'.slab s).mem = (k.slab s).mem) : k'.block c s = k.block c s := by
  obtain ⟨h1, -, -, h2, -⟩ := Cache.layout_eq hlay
  unfold Kmem.block
  rw [h1, h2, hmem]

theorem slot_put (hlay : (k'.cache c).layout = (k.cache c).layout)
    (hs : s ∈ slabsOf L ↔ s ∈ V.slabs c) (hmem : (k'.slab s).mem = (k.slab s).mem) :
    Slot k' (V.put c L ch) c s i p ↔ Slot k V c s i p := by
  obtain ⟨-, h2, -, -, h1⟩ := Cache.layout_eq hlay
  constructor
  · intro hx
    obtain ⟨hsl, hi, ha⟩ := hx
    rw [View.put_slabs] at hsl
    rw [hmem, h2] at ha
    exact ⟨hs.1 hsl, h1 ▸ hi, ha⟩
  · intro hx
    obtain ⟨hsl, hi, ha⟩ := hx
    refine ⟨?_, h1 ▸ hi, ?_⟩
    · rw [View.put_slabs]
      exact hs.2 hsl
    · rw [hmem, h2]
      exact ha

theorem slot_modCache {f : Cache → Cache} (hfix : (f (k.cache c)).fixed = (k.cache c).fixed) :
    Slot (k.modCache c f) V c s i p ↔ Slot k V c s i p := by
  have hlay : ((k.modCache c f).cache c).layout = (k.cache c).layout := by
    simp only [Kmem.modCache, update_self]
    exact (congrArg Cache.layout hfix :)
  have := @slot_put k _ V c s i p (V.lists c) V.chain hlay .rfl rfl
  rwa [View.put_self] at this

theorem live_modCache {f : Cache → Cache} (hfix : (f (k.cache c)).fixed = (k.cache c).fixed) :
    Live (k.modCache c f) V c p ↔ Live k V c p := by
  refine exists_congr fun s => exists_congr fun i => and_congr_left fun _ => ?_
  exact slot_modCache hfix

namespace Kmem.Inv

theorem spare (h : k.Inv V extra) (hc : c ∈ V.caches) (hs : s ∈ V.slabs c) : V.Spare c s :=
  fun _ hc' hne hs' => hne (h.owner_inj hc' hc hs' hs)

/-- An operation on the cache `c` that neither takes nor gives back a block leaves them as they
are. -/
theorem same_blocks (h : k.Inv V extra) (hc : c ∈ V.caches) (hlay : (k'.cache c).layout =
    (k.cache c).layout) (hf : Frame k k' V (V.put c L ch) (· = c))
    (hperm : (slabsOf L).Perm (V.slabs c)) (hb : SameBlocks k k') :
    ((V.put c L ch).blocks k').Perm (V.blocks k) := by
  have hblock : k'.block c = k.block c := funext fun s => block_congr hlay (hb.mem s)
  apply (h.blocks_perm hc hf).trans
  rw [hblock]
  exact ((hperm.map _).append_right _).trans (blocks_split hc).symm

/-- An operation on the cache `c` that neither takes nor gives back a block. -/
theorem of_same (h : k.Inv V extra) (hc : c ∈ V.caches) (ht : Touched k k' c (· ∈ V.slabs c))
    (hperm : (slabsOf L).Perm (V.slabs c)) (hb : SameBlocks k k')
    (hch : ∀ s ∉ V.slabs c, ch s = V.chain s) (hrep : CacheRep k' c L ch)
    (hkeep : ∀ p, Live k V c p → Header k V p → Live k' (V.put c L ch) c p) :
    Served k k' V (V.put c L ch) extra (· = c) := by
  have hblock : k'.block c = k.block c := funext fun s => block_congr ht.layout (hb.mem s)
  refine h.of_touched hc (ht.mono fun _ => h.spare hc)
    (fun s hs => hch s fun hm => hs (h.spare hc hm)) hrep
    (fun s hs => .inl ⟨hperm.mem_iff.1 hs, hb.mem s⟩) hkeep ?_ (by rw [hb.buddy])
  rw [hb.buddy, hblock]
  exact h.buddy.perm (((blocks_split hc).trans ((hperm.symm.map _).append_right _)).append_right _)

/-! ## Slots -/

/-- The first slot of a chain is live now. -/
theorem taken (h : k.Inv V extra) (hc : c ∈ V.caches) (hs : s ∈ V.slabs c)
    (hch : V.chain s = i :: rest) (hm : (k.slab s).mem = some m)
    (hrep : CacheRep k' c L (update V.chain s rest)) (ht : Touched k k' c (· ∈ V.slabs c))
    (hperm : (slabsOf L).Perm (V.slabs c)) (hb : SameBlocks k k') :
    Served k k' V (V.put c L (update V.chain s rest)) extra (· = c) ∧
    Gave k k' V (V.put c L (update V.chain s rest)) c
      (some (m + i * (k.cache c).slotSize)) := by
  obtain ⟨g, hg⟩ := mem_slabsOf.1 hs
  have hfill := (h.reps c hc).filled g s hg
  rw [hch] at hfill
  have hslot : Slot k V c s i (m + i * (k.cache c).slotSize) :=
    ⟨hs, hfill.bound i (.head _), m, hm, rfl⟩
  have hlive : ∀ p, Live k' (V.put c L (update V.chain s rest)) c p ↔
      Live k V c p ∨ p = m + i * (k.cache c).slotSize := by
    intro p
    constructor
    · intro hx
      obtain ⟨s', i', hs', hi'⟩ := hx
      rw [slot_put ht.layout hperm.mem_iff (hb.mem s')] at hs'
      rw [View.put_chain] at hi'
      by_cases hss : s' = s
      · subst hss
        rw [update_self] at hi'
        by_cases hii : i' = i
        · subst hii
          obtain ⟨m', hm', rfl⟩ := hs'.addr
          obtain rfl := Option.some.inj (hm'.symm.trans hm)
          exact .inr rfl
        · exact .inl ⟨s', i', hs', by rw [hch]; exact fun hmem =>
            (List.mem_cons.1 hmem).elim hii hi'⟩
      · rw [update_of_ne hss] at hi'
        exact .inl ⟨s', i', hs', hi'⟩
    · rintro (⟨s', i', hs', hi'⟩ | rfl)
      · refine ⟨s', i', (slot_put ht.layout hperm.mem_iff (hb.mem s')).2 hs', ?_⟩
        rw [View.put_chain]
        by_cases hss : s' = s
        · subst hss
          rw [hch] at hi'
          rw [update_self]
          exact fun hmem => hi' (.tail _ hmem)
        · rwa [update_of_ne hss]
      · refine ⟨s, i, (slot_put ht.layout hperm.mem_iff (hb.mem s)).2 hslot, ?_⟩
        rw [View.put_chain, update_self]
        exact (List.nodup_cons.1 hfill.nodup).1
  refine ⟨h.of_same hc ht hperm hb (fun u hu => update_of_ne (fun he : u = s => hu (he ▸ hs)) _ _) hrep
    fun p hp _ => (hlive p).2 (.inl hp), ?_, hlive⟩
  exact h.not_live hc hc hslot (by rw [hch]; exact .head _)

/-- A live slot is free again. -/
theorem put_back (h : k.Inv V extra) (hc : c ∈ V.caches) (hslot : Slot k V c s i p)
    (hrep : CacheRep k' c L (update V.chain s (i :: V.chain s)))
    (ht : Touched k k' c (· ∈ V.slabs c)) (hperm : (slabsOf L).Perm (V.slabs c))
    (hb : SameBlocks k k') (hp : ¬ Header k V p) :
    Served k k' V (V.put c L (update V.chain s (i :: V.chain s))) extra (· = c) ∧
    Took k k' V (V.put c L (update V.chain s (i :: V.chain s))) c p := by
  have htook : Took k k' V (V.put c L (update V.chain s (i :: V.chain s))) c p := ?_
  · refine ⟨h.of_same hc ht hperm hb (fun u hu => update_of_ne
      (fun he : u = s => hu (he ▸ hslot.slab)) _ _) hrep fun q hq hh => (htook q).2 ⟨hq, ?_⟩, htook⟩
    intro he
    subst he
    exact hp hh
  intro q
  constructor
  · intro hx
    obtain ⟨s', i', hs', hi'⟩ := hx
    rw [slot_put ht.layout hperm.mem_iff (hb.mem s')] at hs'
    rw [View.put_chain] at hi'
    by_cases hss : s' = s
    · subst hss
      rw [update_self, List.mem_cons, not_or] at hi'
      refine ⟨⟨s', i', hs', hi'.2⟩, ?_⟩
      intro he
      subst he
      exact hi'.1 (h.slot_unique hc hc hs' hslot).2.2
    · rw [update_of_ne hss] at hi'
      refine ⟨⟨s', i', hs', hi'⟩, ?_⟩
      intro he
      subst he
      exact hss (h.slot_unique hc hc hs' hslot).2.1
  · intro hx
    obtain ⟨⟨s', i', hs', hi'⟩, hne⟩ := hx
    refine ⟨s', i', (slot_put ht.layout hperm.mem_iff (hb.mem s')).2 hs', ?_⟩
    rw [View.put_chain]
    by_cases hss : s' = s
    · subst hss
      rw [update_self, List.mem_cons, not_or]
      refine ⟨fun hii => hne ?_, hi'⟩
      subst hii
      obtain ⟨m, hm, rfl⟩ := hs'.addr
      obtain ⟨m', hm', rfl⟩ := hslot.addr
      rw [Option.some.inj (hm.symm.trans hm')]
    · rwa [update_of_ne hss]

/-- The first slot of a new slab is live. -/
theorem grown (h : k.Inv V extra) (hc : c ∈ V.caches) (hs : ∀ c' ∈ V.caches, s ∉ V.slabs c')
    (hrep : CacheRep k' c L (update V.chain s (List.range' 1 ((k.cache c).objNum - 1))))
    (ht : Touched k k' c fun u => u = s ∨ u ∈ V.slabs c)
    (hperm : (slabsOf L).Perm (s :: V.slabs c))
    (hmem : ∀ u, (k'.slab u).mem = if u = s then some m else (k.slab u).mem)
    (hplaced : ∀ V', Frame k k' V V' (· = c) → Placed k' V' c s)
    (hb : Buddy.Inv k'.buddy (k'.block c s :: (V.blocks k ++ extra)))
    (hstart : k'.buddy.kernelStartAddr = k.buddy.kernelStartAddr) :
    let V' := V.put c L (update V.chain s (List.range' 1 ((k.cache c).objNum - 1)))
    Served k k' V V' extra (· = c) ∧ Gave k k' V V' c (some m) ∧
      ∀ u i p, Slot k' V' c u i p ↔ Slot k V c u i p ∨
        u = s ∧ i < (k.cache c).objNum ∧ p = m + i * (k.cache c).slotSize := by
  intro V'
  have hne : ∀ u ∈ V.slabs c, u ≠ s := fun u hu he => hs c hc (he ▸ hu)
  have hmem' : ∀ u ∈ V.slabs c, (k'.slab u).mem = (k.slab u).mem := fun u hu => by
    rw [hmem, if_neg (hne u hu)]
  have hspare : ∀ u, (u = s ∨ u ∈ V.slabs c) → V.Spare c u := by
    rintro u (rfl | hu)
    · exact fun c' hc' _ => hs c' hc'
    · exact h.spare hc hu
  have hch : ∀ u, ¬ V.Spare c u →
      update V.chain s (List.range' 1 ((k.cache c).objNum - 1)) u = V.chain u :=
    fun u hu => update_of_ne (fun he : u = s => hu (hspare u (.inl he))) _ _
  have htouch := ht.mono hspare
  have hslot : ∀ u i p, u ≠ s → (Slot k' V' c u i p ↔ Slot k V c u i p) := by
    intro u i p hus
    have hiff : u ∈ slabsOf L ↔ u ∈ V.slabs c := by
      rw [hperm.mem_iff, List.mem_cons, or_iff_right hus]
    exact slot_put ht.layout hiff (by rw [hmem, if_neg hus])
  have h0 : Slot k' V' c s 0 m := by
    refine ⟨?_, ?_, m, ?_, ?_⟩
    · rw [View.put_slabs]
      exact hperm.mem_iff.2 (.head _)
    · rw [ht.objNum]
      exact (h.reps c hc).objNum.1
    · rw [hmem, if_pos rfl]
    · rw [Nat.zero_mul, Nat.add_zero]
  have hlive : ∀ p, Live k' V' c p ↔ Live k V c p ∨ p = m := by
    intro p
    constructor
    · intro hx
      obtain ⟨u, i, hu, hi⟩ := hx
      rw [View.put_chain] at hi
      by_cases hus : u = s
      · subst hus
        rw [update_self, List.mem_range'_1] at hi
        have hlt := hu.lt
        obtain ⟨m', hm', rfl⟩ := hu.addr
        rw [hmem, if_pos rfl] at hm'
        obtain rfl := Option.some.inj hm'
        rw [ht.objNum] at hlt
        rw [show i = 0 by omega, Nat.zero_mul]
        exact .inr rfl
      · rw [update_of_ne hus] at hi
        exact .inl ⟨u, i, (hslot u i p hus).1 hu, hi⟩
    · rintro (⟨u, i, hu, hi⟩ | rfl)
      · have hus := hne u hu.slab
        refine ⟨u, i, (hslot u i p hus).2 hu, ?_⟩
        rw [View.put_chain, update_of_ne hus]
        exact hi
      · refine ⟨s, 0, h0, ?_⟩
        rw [View.put_chain, update_self, List.mem_range'_1]
        omega
  have hserved : Served k k' V V' extra (· = c) := by
    refine h.of_touched hc htouch hch hrep (fun u hu => ?_)
      (fun p hp _ => (hlive p).2 (.inl hp)) ?_ hstart
    · rcases List.mem_cons.1 (hperm.mem_iff.1 hu) with rfl | hu'
      · exact .inr (hplaced _ (.of_touched htouch hch))
      · exact .inl ⟨hu', hmem' u hu'⟩
    · have hmap : (V.slabs c).map (k'.block c) = (V.slabs c).map (k.block c) :=
        List.map_congr_left fun u hu => block_congr ht.layout (hmem' u hu)
      have hp₁ := hperm.map (k'.block c)
      rw [List.map_cons, hmap] at hp₁
      apply hb.perm
      refine ((((blocks_split hc).append_right extra).cons _).trans ?_)
      exact (hp₁.symm.append_right _).append_right _
  refine ⟨hserved, ⟨?_, hlive⟩, fun u i p => ?_⟩
  · intro hx
    obtain ⟨u, i, hu, -⟩ := hx
    have hus := hne u hu.slab
    exact hus (hserved.inv.slot_unique hc hc ((hslot u i m hus).2 hu) h0).2.1
  · by_cases hus : u = s
    · subst hus
      constructor
      · intro hx
        obtain ⟨-, hlt, m', hm', hp⟩ := hx
        rw [hmem, if_pos rfl, Option.some.injEq] at hm'
        rw [ht.objNum] at hlt
        rw [ht.slotSize, ← hm'] at hp
        exact .inr ⟨rfl, hlt, hp⟩
      · rintro (hu | ⟨-, hlt, hp⟩)
        · exact absurd rfl (hne u hu.slab)
        · exact ⟨h0.slab, by rw [ht.objNum]; exact hlt, m, by rw [hmem, if_pos rfl],
            by rw [ht.slotSize]; exact hp⟩
    · rw [hslot u i p hus]
      simp only [hus, false_and, or_false]

/-- A change of a cache that its invariant does not see. -/
theorem modCache (h : k.Inv V extra) (hc : c ∈ V.caches) {f : Cache → Cache}
    (hfirst : (f (k.cache c)).first = (k.cache c).first)
    (hfix : (f (k.cache c)).fixed = (k.cache c).fixed)
    (hnum : (f (k.cache c)).numOfSlabs = (k.cache c).numOfSlabs) :
    Served k (k.modCache c f) V V extra (· = c) := by
  have hobj : (f (k.cache c)).objNum = (k.cache c).objNum := (congrArg Cache.objNum hfix :)
  have hrep := h.reps c hc
  have hself := View.put_self (V := V) (c := c)
  have := h.of_same hc (.modCache k c _ f hfix) .rfl ⟨rfl, fun _ => rfl⟩
    (fun _ _ => rfl) ⟨hrep.toStocked.modCache hfirst hobj hnum, fun g u hu => ?_⟩
    fun p hp _ => by rw [hself]; exact (live_modCache hfix).2 hp
  · rwa [hself] at this
  · simp only [Kmem.modCache, update_self, hobj]
    exact hrep.level g u hu

theorem setError (h : k.Inv V extra) (hc : c ∈ V.caches) (err : Int) :
    Served k (k.setError c err) V V extra (· = c) := h.modCache hc rfl rfl rfl

/-! ## Allocation -/

/-- A slab with a free slot gives one. -/
theorem alloc_old (h : k.Inv V extra) (hc : c ∈ V.caches)
    (hold : ¬ ((k.cache c).slabsPartial = none ∧ (k.cache c).slabsFree = none)) (n : Nat) :
    ∃ q k' V', Cache.cacheAllocDepth (n + 1) k c = some (some q, k') ∧
      Served k k' V V' extra (· = c) ∧ Gave k k' V V' c (some q) ∧
      (∀ s i p, Slot k' V' c s i p ↔ Slot k V c s i p) ∧ k'.calls = k.calls ∧
      (V'.slabs c).Perm (V.slabs c) ∧ k'.buddy = k.buddy ∧
      ∀ a, a ≠ c → k'.cache a = k.cache a := by
  have hmem : ∀ s ∈ slabsOf (V.lists c), (k.slab s).mem ≠ none := by
    intro s hs
    by_cases ht : (k.cache c).type = 0
    · rw [(h.placed c hc s hs).object ht]
      exact Option.some_ne_none _
    · exact ((h.placed c hc s hs).buffer ht).1
  obtain ⟨s, i, rest, m, k', L, hs, hch, hm, he, hrep, ht, hperm, hb, hcalls⟩ :=
    SlabKernel.alloc_old (h.reps c hc) hmem hold n
  obtain ⟨h1, h2⟩ := h.taken hc hs hch hm hrep ht hperm hb
  refine ⟨_, k', _, he, h1, h2, fun u _ _ => slot_put ht.layout hperm.mem_iff (hb.mem u), hcalls,
    ?_, hb.buddy, ht.cache⟩
  rw [View.put_slabs]
  exact hperm

/-- A block that the buddy allocator had is no slab. -/
theorem fresh {b : Buddy} {o c' : Nat} (h : k.Inv V extra)
    (hb : Buddy.Inv b ((p, o) :: (V.blocks k ++ extra))) (hc' : c' ∈ V.caches) :
    p ∉ V.slabs c' := by
  intro hp
  -- the block of the slab, or of the slab with its header, starts at or before `p`
  have hapart : ∀ c ∈ V.caches, ∀ s ∈ V.slabs c, (k.block c s).1 ≤ p →
      p < (k.block c s).1 + 2 ^ (k.block c s).2 * blockSize → False := by
    intro c hc s hs hle hlt
    have hmem : k.block c s ∈ V.blocks k ++ extra := block_mem hc hs
    have hne : k.block c s ≠ (p, o) := fun he => (List.nodup_cons.1 hb.1).1 (he ▸ hmem)
    have hpos : 0 < 2 ^ o * blockSize := Nat.mul_pos (Nat.two_pow_pos o) (by decide)
    have := hb.apart (.tail _ hmem) (.head _) hne
    simp only at this
    omega
  by_cases ht : (k.cache c').type = 0
  · have hpos : 0 < 2 ^ (k.block c' p).2 * blockSize := Nat.mul_pos (Nat.two_pow_pos _) (by decide)
    have hself : (k.block c' p).1 = p := if_pos ht
    exact hapart c' hc' p hp (by omega) (by omega)
  · obtain ⟨-, d, hd', -, s, i, hslot, -⟩ := (h.placed c' hc' p hp).buffer ht
    have hsize := h.slotSize_pos hd'
    obtain ⟨h1, h2, -⟩ := h.slot_inside hd' hslot
    exact hapart d hd' s hslot.slab h1 (by omega)

/-- An allocation from an object cache. It fails only if the buddy allocator has no block left for a
slab. -/
theorem alloc_object (h : k.Inv V extra) (hc : c ∈ V.caches) (ho : (k.cache c).IsObject) (n : Nat) :
    ∃ r k' V', Cache.cacheAllocDepth (n + 1) k c = some (r, k') ∧
      Served k k' V V' extra (· = c) ∧ Gave k k' V V' c r ∧
      (r = none → (k.buddy.alloc (k.cache c).slabOrder).1 = none ∧ k' = k.setError c (-2)) ∧
      Grew k k' V V' c ∧ (r ≠ none ↔ k.Supply c) ∧ k'.buddy = k.buddyAfter c ∧
      ∀ a, a ≠ c → k'.cache a = k.cache a := by
  by_cases hold : (k.cache c).slabsPartial = none ∧ (k.cache c).slabsFree = none
  · rcases h.buddy.alloc (k.cache c).slabOrder with hb | ⟨q, b, hb, hg, h0, h12, hinv⟩
    · have hgrow : Cache.slabAlloc (Cache.cacheAllocDepth n) k c = some (k.setError c (-2)) := by
        unfold Cache.slabAlloc Slab.createSlab
        simp only [if_pos ho.type, hb]
      refine ⟨none, _, V, SlabKernel.alloc_failed hold hgrow rfl, h.setError hc _,
        fun p => live_modCache rfl, fun _ => ⟨by rw [hb], rfl⟩,
        .of_same (fun _ _ _ => slot_modCache rfl) ?_ rfl, ?_, ?_, fun a ha => update_of_ne ha _ _⟩
      · simp only [Kmem.newSlots, hb, Option.elim_none, ite_self]
      · exact iff_of_false (not_not_intro rfl) fun hs => hs hold (by rw [hb])
      · unfold Kmem.buddyAfter
        rw [if_pos hold, hb]
        rfl
    · have hs : ∀ c' ∈ V.caches, q ∉ V.slabs c' := fun c' hc' => h.fresh hinv hc'
      obtain ⟨m, k', L, hm, he, hrep, ht, hperm, hbuddy, hmem, hcalls⟩ := alloc_new (h.reps c hc)
        ho.type hold hb (fun g hq => hs c hc (mem_slabsOf.2 ⟨g, hq⟩)) n
      have hblock : k'.block c q = (q, (k.cache c).slabOrder) := by
        have h1 : (k'.cache c).type = 0 := (congrArg Cache.type ht.fixed :).trans ho.type
        have h2 : (k'.cache c).slabOrder = (k.cache c).slabOrder :=
          (congrArg Cache.slabOrder ht.fixed :)
        unfold Kmem.block
        rw [if_pos h1, h2]
      have hplaced : ∀ V', Frame k k' V V' (· = c) → Placed k' V' c q := by
        intro V' _
        have h1 : (k'.cache c).type = 0 := (congrArg Cache.type ht.fixed :).trans ho.type
        refine ⟨fun _ => ?_, fun hne => absurd h1 hne⟩
        rw [hmem, if_pos rfl, ht.objNum, hm]
      obtain ⟨h1, h2, h3⟩ := h.grown hc hs hrep ht hperm hmem hplaced
        (by rw [hbuddy, hblock]; exact hinv) (by rw [hbuddy, hg.start])
      have hnew : ∀ p, p ∈ k.newSlots c ↔
          ∃ i < (k.cache c).objNum, p = m + i * (k.cache c).slotSize := fun p => by
        unfold Kmem.newSlots
        rw [if_pos hold, hb, Option.elim_some, List.mem_map, hm]
        simp only [List.mem_range, @eq_comm _ p]
      refine ⟨some m, k', _, he, h1, h2, (nomatch ·), ⟨fun p => ?_, fun p hp hold => ?_, ?_⟩,
        iff_of_true (Option.some_ne_none m) fun _ => ?_, ?_, ht.cache⟩
      · rw [hnew]
        constructor
        · intro hx
          obtain ⟨u, i, hu⟩ := hx
          rcases (h3 u i p).1 hu with hu | ⟨-, hi⟩
          · exact .inl ⟨u, i, hu⟩
          · exact .inr ⟨i, hi⟩
        · rintro (⟨u, i, hu⟩ | ⟨i, hi⟩)
          · exact ⟨u, i, (h3 u i p).2 (.inl hu)⟩
          · exact ⟨q, i, (h3 q i p).2 (.inr ⟨rfl, hi⟩)⟩
      · obtain ⟨i, hi⟩ := (hnew p).1 hp
        obtain ⟨u, j, hu⟩ := hold
        have := (h1.inv.slot_unique hc hc ((h3 u j p).2 (.inl hu)) ((h3 q i p).2 (.inr ⟨rfl, hi⟩))).2.1
        exact hs c hc (this ▸ hu.slab)
      · rw [hcalls, hm]
        unfold Cache.callsOn Kmem.newSlots
        simp only [hold, and_self, if_true, hb, Option.elim_some, List.map_map]
        rfl
      · rw [hb]
        exact Option.some_ne_none q
      · unfold Kmem.buddyAfter
        rw [if_pos hold, hb, hbuddy]
  · obtain ⟨q, k', V', he, hs, hg, hslot, hcalls, -, hbuddy, hcache⟩ := h.alloc_old hc hold n
    exact ⟨some q, k', V', he, hs, hg, (nomatch ·), .of_same hslot (if_neg hold) hcalls,
      iff_of_true (Option.some_ne_none q) fun hn => absurd hn hold, hbuddy.trans (if_neg hold).symm,
      hcache⟩

/-! ## Deallocation -/

/-- A live object goes back to its cache, unless it holds the header of a slab. -/
theorem free_object (h : k.Inv V extra) (hc : c ∈ V.caches) (ho : (k.cache c).IsObject)
    (hpage : (k.cache c).InPage) (hp : Live k V c p) (hh : ¬ Header k V p) :
    ∃ k' V', Cache.cacheFree k c (some p) = some k' ∧ Served k k' V V' extra (· = c) ∧
      Took k k' V V' c p ∧ Touched k k' c (· ∈ V.slabs c) ∧ k'.buddy = k.buddy ∧
      (V'.blocks k').Perm (V.blocks k) ∧ (∀ s i p, Slot k' V' c s i p ↔ Slot k V c s i p) ∧
      k'.calls = k.calls ++ ((k.cache c).dtor.elim [] fun f => [(f, p)]) ++
        ((k.cache c).ctor.elim [] fun f => [(f, p)]) := by
  obtain ⟨s, i, hslot, hi⟩ := hp
  obtain ⟨m, hm, hpm⟩ := hslot.addr
  obtain ⟨g, hg⟩ := mem_slabsOf.1 hslot.slab
  have hhead := h.header hc ho hpage hslot
  have hsmall : i * (k.cache c).slotSize < 2 ^ 64 := by
    have hlt := hslot.lt
    rcases hpage with hzero | hone
    · have hfits := ho.fits
      rw [ho.slabSize, hzero, Nat.pow_zero, Nat.one_mul] at hfits
      have := Nat.mul_le_mul_right (k.cache c).slotSize (Nat.le_of_lt hlt)
      unfold blockSize at hfits
      omega
    · rw [show i = 0 by omega, Nat.zero_mul]
      decide
  obtain ⟨k', L, he, hrep, ht, hperm, hb, hcalls⟩ := putObject_spec (h.reps c hc) hg hm hi hslot.lt
    hpm ho.slotSize hsmall hhead
  obtain ⟨h1, h2⟩ := h.put_back hc hslot hrep ht hperm hb hh
  exact ⟨k', _, he, h1, h2, ht, hb.buddy, h.same_blocks hc ht.layout h1.frame hperm hb,
    fun u _ _ => slot_put ht.layout hperm.mem_iff (hb.mem u), hcalls⟩

/-- An object that is handed to another cache changes nothing but the error of that cache. -/
theorem free_wrong {c' : Nat} (h : k.Inv V extra) (hc : c ∈ V.caches) (ho : (k.cache c).IsObject)
    (hpage : (k.cache c).InPage) (hp : Live k V c p) (hne : c' ≠ c) :
    Cache.cacheFree k c' (some p) = some (k.setError c' (-3)) := by
  obtain ⟨s, i, hslot, -⟩ := hp
  apply putObject_wrong
  rw [h.header hc ho hpage hslot, h.owner hc hslot.slab]
  exact fun he => hne (Option.some.inj he).symm

end Kmem.Inv

end SlabKernel
