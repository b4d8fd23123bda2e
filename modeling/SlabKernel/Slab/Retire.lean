import SlabKernel.Slab.Buffers

/-!
# Destruction keeps the invariant

The cache that is destroyed leaves the view first (`Kmem.Inv.retire`): its blocks are then among
those of other users, and the loops of `destroyCache` give them back while the other caches keep the
invariant.

* An object cache may go when no header of a slab lies in its objects
  (`Kmem.Inv.destroyCache_object`).
* A buffer cache gives its headers back to its descriptor cache, one for each block
  (`Doomed.dealloc`, `Kmem.Inv.destroyCache_buffer`).
* `deallocateSlot` then takes the cache off the pool (`Kmem.Pooled.destroy`).
-/

namespace SlabKernel

open Function (update update_self update_of_ne update_eq_self)
open PtrList

variable {k k' k₁ : Kmem} {V V' V₁ W : View} {extra live : List (Nat × Nat)} {c d s fuel : Nat}
  {p : Ptr} {l l' : List Nat} {S : Nat → Prop}

/-- The view without the cache `c`. -/
def View.retire (V : View) (c : Nat) : View := { V with caches := V.caches.erase c }

/-- The other caches stay when `c` leaves the view. -/
theorem Frame.retire (h : V.caches.Nodup) : Frame k k V (V.retire c) (· = c) :=
  ⟨fun _ ha hac => h.mem_erase_iff.2 ⟨hac, ha⟩, fun _ _ _ => rfl, fun _ _ _ => rfl,
    fun _ _ _ _ _ => rfl, fun _ _ _ _ _ => rfl⟩

namespace Kmem.Inv

/-- A cache without headers in its live objects may leave the view. -/
theorem retire (h : k.Inv V extra) (hc : c ∈ V.caches)
    (hd : ∀ s, Header k (V.retire c) s → ¬ Live k V c s) :
    k.Inv (V.retire c) (V.slabBlocks k c ++ extra) := by
  have hmem : ∀ a ∈ (V.retire c).caches, a ∈ V.caches ∧ a ≠ c := fun a ha =>
    ⟨List.mem_of_mem_erase ha, (h.nodup.mem_erase_iff.1 ha).1⟩
  have hframe : Frame k k V (V.retire c) (· = c) := .retire h.nodup
  refine ⟨h.nodup.erase c, ⟨fun a ha => h.classes.kind a (hmem a ha).1,
    fun i a hi ha => h.classes.buffer i a hi (hmem a ha).1,
    fun i a hi ha => h.classes.descriptor i a hi (hmem a ha).1⟩, fun a ha => h.reps a (hmem a ha).1,
    fun a ha s hs => ?_, ?_, h.start⟩
  · refine (h.placed a (hmem a ha).1 s hs).frame rfl rfl fun ht i d hdm hd' hl => ?_
    have hdc : d ≠ c := by
      intro he
      subst he
      exact hd s ⟨a, ha, ht, hs⟩ hl
    exact ⟨hframe.mem d hdm hdc, hd', (hframe.live hdm hdc).2 hl⟩
  · apply h.buddy.perm
    apply ((blocks_split (k := k) hc).append_right extra).trans
    exact (List.perm_append_comm.append_right extra).trans (.of_eq (List.append_assoc _ _ _))

theorem disown_blocks {b : Buddy} {calls : List (Nat × Nat)} :
    V.blocks { k.disown l with buddy := b, calls } = V.blocks k := by
  unfold View.blocks View.slabBlocks block
  simp only [disown_mem]
  rfl

/-- Blocks have been given back, those with headers in `l` among them. -/
theorem gaveBack {b : Buddy} {calls : List (Nat × Nat)} (h : k.Inv V extra)
    (hb : Buddy.Inv b (V.blocks k ++ live))
    (hstart : b.kernelStartAddr = k.buddy.kernelStartAddr)
    (hl : ∀ c ∈ V.caches, ∀ s ∈ V.slabs c, s ∉ l) (S : Nat → Prop) :
    Served k { k.disown l with buddy := b, calls } V V live S := by
  have hframe : ∀ S, Frame k { k.disown l with buddy := b, calls } V V S := fun _ =>
    ⟨fun _ hc _ => hc, fun _ _ _ => rfl, fun _ _ _ => rfl,
      fun c hc _ s hs => disown_of_notMem (hl c hc s hs), fun _ _ _ _ _ => rfl⟩
  refine ⟨h.of_frame (hframe fun _ => False) h.nodup { h.classes with }
    (fun i d hd _ => ⟨hd, not_false⟩) (fun c hc => .inl ⟨hc, not_false⟩) ?_ hstart,
    hframe S, ⟨rfl, rfl, rfl, rfl⟩, fun _ => rfl, rfl⟩
  rw [disown_blocks]
  exact hb

/-- Only the buddy allocator has changed. -/
theorem withBuddy {b : Buddy} {calls : List (Nat × Nat)} (h : k.Inv V extra)
    (hb : Buddy.Inv b (V.blocks k ++ live))
    (hstart : b.kernelStartAddr = k.buddy.kernelStartAddr) (S : Nat → Prop) :
    Served k { k with buddy := b, calls } V V live S :=
  h.gaveBack (l := []) hb hstart (fun _ _ _ _ => List.not_mem_nil) S

/-! ## Object caches -/

/-- The blocks of an object cache, in the order in which `destroyCache` gives them back. -/
theorem slabBlocks_perm (ho : (k.cache c).IsObject) : (V.slabBlocks k c).Perm
    ((V.lists c .FREE).map (·, (k.cache c).slabOrder) ++
      ((V.lists c .PARTIAL).map (·, (k.cache c).slabOrder) ++
        (V.lists c .FULL).map (·, (k.cache c).slabOrder))) := by
  have hblocks : V.slabBlocks k c = (V.slabs c).map (·, (k.cache c).slabOrder) := by
    refine List.map_congr_left fun s _ => ?_
    unfold Kmem.block
    rw [if_pos ho.type]
  have hp := (slabsOf_perm (V.lists c)).map (·, (k.cache c).slabOrder)
  simp only [List.map_append] at hp
  rw [hblocks]
  exact hp

/-- `destroyCache` gives the slabs of an object cache back. -/
theorem destroyCache_object (h : k.Inv V extra) (hc : c ∈ V.caches) (ho : (k.cache c).IsObject)
    (hd : ∀ s, Header k (V.retire c) s → ¬ Live k V c s) :
    ∃ k', Cache.destroyCache k c = some k' ∧
      Served k k' (V.retire c) (V.retire c) extra (fun _ => False) ∧
      Returned k k' V (V.retire c) ∧ k'.calls = k.calls ++
        (V.lists c .FREE ++ (V.lists c .PARTIAL ++ V.lists c .FULL)).flatMap (k.destructed c) := by
  have hlists := (h.reps c hc).shelves.lists
  have hpage : ∀ g, ∀ s ∈ V.lists c g, Page k c s := fun g s hs =>
    have hs' := mem_slabsOf.2 ⟨g, hs⟩
    ⟨h.owner hc hs', by rw [(h.placed c hc s hs').object ho.type]; exact Option.some_ne_none _⟩
  have hlen : ∀ g, (V.lists c g).length ≤ addrSpace := fun g =>
    (h.list_length hc g).trans (by decide)
  have hret := h.retire hc hd
  have hperm : ((V.retire c).blocks k ++ (V.slabBlocks k c ++ extra)).Perm
      ((V.lists c .FREE).map (·, (k.cache c).slabOrder) ++
      ((V.lists c .PARTIAL).map (·, (k.cache c).slabOrder) ++
      ((V.lists c .FULL).map (·, (k.cache c).slabOrder) ++ ((V.retire c).blocks k ++ extra)))) := by
    apply (List.perm_append_comm_assoc _ _ _).trans
    apply ((slabBlocks_perm ho).append_right _).trans
    simp only [List.append_assoc, List.Perm.refl]
  obtain ⟨b₁, hf₁, hg₁, hb₁⟩ := Buddy.Inv.freeAll (hret.buddy.perm hperm)
  have he₁ := deallocSlabGroup_spec (hlists .FREE).linked (hlen _) ho (hpage .FREE) hf₁
  obtain ⟨b₂, hf₂, hg₂, hb₂⟩ := Buddy.Inv.freeAll hb₁
  have hdisj := (h.reps c hc).shelves.disjoint
  have he₂ : ∀ calls, Cache.deallocSlabGroup addrSpace (k.cache c).slabsPartial
      { k.disown (V.lists c .FREE) with buddy := b₁, calls } =
        some { k.disown (V.lists c .FREE ++ V.lists c .PARTIAL) with
          buddy := b₂, calls := calls ++ (V.lists c .PARTIAL).flatMap (k.destructed c) } := by
    intro calls
    rw [← disown_append, ← destructed_disown (l := V.lists c .FREE)]
    exact deallocSlabGroup_spec (k := { k.disown (V.lists c .FREE) with buddy := b₁, calls })
      (Seg.congr (hlists .PARTIAL).linked fun s _ => disown_next) (hlen _) ho
      (fun s hs => { (hpage .PARTIAL s hs).disown (l := V.lists c .FREE) fun hs' =>
        nomatch hdisj _ _ s hs hs' with }) hf₂
  obtain ⟨b₃, hf₃, hg₃, hb₃⟩ := Buddy.Inv.freeAll hb₂
  have he₃ : ∀ calls, Cache.deallocSlabGroup addrSpace (k.cache c).slabsFull
      { k.disown (V.lists c .FREE ++ V.lists c .PARTIAL) with buddy := b₂, calls } =
        some { k.disown (V.lists c .FREE ++ (V.lists c .PARTIAL ++ V.lists c .FULL)) with
          buddy := b₃, calls := calls ++ (V.lists c .FULL).flatMap (k.destructed c) } := by
    intro calls
    have hdisown : k.disown (V.lists c .FREE ++ (V.lists c .PARTIAL ++ V.lists c .FULL)) =
        (k.disown (V.lists c .FREE ++ V.lists c .PARTIAL)).disown (V.lists c .FULL) := by
      rw [disown_append, List.append_assoc]
    rw [hdisown, ← destructed_disown (l := V.lists c .FREE ++ V.lists c .PARTIAL)]
    exact deallocSlabGroup_spec
      (k := { k.disown (V.lists c .FREE ++ V.lists c .PARTIAL) with buddy := b₂, calls })
      (Seg.congr (hlists .FULL).linked fun s _ => disown_next) (hlen _) ho
      (fun s hs => { (hpage .FULL s hs).disown (l := V.lists c .FREE ++ V.lists c .PARTIAL)
        fun hs' => (List.mem_append.1 hs').elim (fun hs' => nomatch hdisj _ _ s hs hs')
          fun hs' => nomatch hdisj _ _ s hs hs' with }) hf₃
  -- the slabs of the other caches have kept their owners
  have hkept : ∀ a ∈ (V.retire c).caches, ∀ s ∈ (V.retire c).slabs a,
      s ∉ V.lists c .FREE ++ (V.lists c .PARTIAL ++ V.lists c .FULL) := fun a ha s hs hs' => by
    obtain ⟨hac, ham⟩ := h.nodup.mem_erase_iff.1 ha
    exact hac (h.owner_inj ham hc hs ((slabsOf_perm (V.lists c)).mem_iff.2 hs'))
  refine ⟨_, ?_, hret.gaveBack hb₃
    (hg₃.start.trans (hg₂.start.trans hg₁.start)) hkept _, ⟨_, ?_,
    Buddy.freeAll_append hf₁ (Buddy.freeAll_append hf₂ hf₃)⟩, rfl⟩
  swap
  · rw [disown_blocks]
    exact (blocks_split hc).trans ((slabBlocks_perm ho).append_right _)
  unfold Cache.destroyCache
  simp only [Cache.first] at he₁ he₂ he₃
  simp only [he₁, Option.bind_eq_bind, Option.bind_some]
  change ((Cache.deallocSlabGroup addrSpace (k.cache c).slabsPartial _).bind _) = _
  rw [he₂]
  change Cache.deallocSlabGroup addrSpace (k.cache c).slabsFull _ = _
  rw [he₃]
  simp only [List.flatMap_append, List.append_assoc]

end Kmem.Inv

/-! ## Buffer caches -/

/-- The slabs `l` of the buffer cache `c` are to be given back; their headers are in objects of
`d`. -/
structure Doomed (k : Kmem) (W : View) (c d : Nat) (l : List Nat) (extra : List (Nat × Nat)) :
    Prop where
  inv : k.Inv W (l.map (k.block c) ++ extra)
  type : (k.cache c).type ≠ 0
  descriptor : k.memBuffSlabs (CachePool.getPowerOfTwo (k.cache c).slotSize) = some d
  mem : d ∈ W.caches
  nodup : l.Nodup
  owner : ∀ s ∈ l, (k.slab s).owner = some c
  block : ∀ s ∈ l, (k.slab s).mem ≠ none
  live : ∀ s ∈ l, Live k W d s
  free : ∀ s ∈ l, ¬ Header k W s

namespace Doomed

/-- `destroySlab` gives a block and its header back. -/
theorem destroySlab (h : Doomed k W c d (s :: l) extra) :
    ∃ k' W', Slab.destroySlab k s = some k' ∧
      Served k k' W W' (l.map (k'.block c) ++ extra) (· = d) ∧
      Doomed k' W' c d l extra ∧ k'.cache c = k.cache c ∧ (∀ u ∈ l, k'.slab u = k.slab u) ∧
      k.buddy.freeAll [k.block c s] = some k'.buddy ∧ (W'.blocks k').Perm (W.blocks k) := by
  have hinv := h.inv
  obtain ⟨hi, ho, horder, hsize⟩ := hinv.classes.descriptor _ d h.descriptor h.mem
  obtain ⟨m, hm⟩ := Option.ne_none_iff_exists'.1 (h.block s (.head _))
  have hblock : k.block c s = (m, (k.cache c).slabOrder) := by
    unfold Kmem.block
    rw [if_neg h.type, hm]
    rfl
  have hp : (W.blocks k ++ ((s :: l).map (k.block c) ++ extra)).Perm
      ((m, (k.cache c).slabOrder) :: (W.blocks k ++ (l.map (k.block c) ++ extra))) := by
    rw [List.map_cons, hblock]
    exact List.perm_middle
  obtain ⟨b, hfree, hg, hb⟩ := (hinv.buddy.perm hp).free (.head _)
  rw [List.erase_cons_head] at hb
  have hcalls := destroySlab_eq (h.owner s (.head _)) hm
  have h₁ : Served k { k with
      buddy := b, calls := k.calls ++ (k.cache c).callsOn (k.cache c).dtor m } _ _ _ _ :=
    hinv.withBuddy hb hg.start fun _ => False
  obtain ⟨k', W', he, h₂, htook, ht, hbuddy, hperm, -⟩ := h₁.inv.free_object h.mem ho (.inl horder)
    ((h₁.frame.live h.mem not_false).2 (h.live s (.head _))) (h.free s (.head _))
  have hserved := (h₁.mono fun _ => False.elim).trans h₂
  have hsame : ∀ u ∈ l, k'.slab u = k.slab u := fun u hu => by
    obtain ⟨v, i, hslot, -⟩ := h.live u (.tail _ hu)
    exact ht.slab u (hinv.not_slab h.mem ho.type hslot h.mem ho.type)
  have hcd : c ≠ d := fun he => h.type (he ▸ ho.type)
  have hcache : k'.cache c = k.cache c := ht.cache c hcd
  have hblocks : l.map (k'.block c) = l.map (k.block c) := List.map_congr_left fun u hu =>
    block_congr (by rw [hcache]) (by rw [hsame u hu])
  rw [← hblocks] at hserved
  obtain ⟨-, -, -, -, -, -, -, h8⟩ := Kmem.pool_eq hserved.pool
  refine ⟨k', W', ?_, hserved, ⟨hserved.inv, hcache ▸ h.type, ?_, hserved.caches ▸ h.mem,
    (List.nodup_cons.1 h.nodup).2, fun u hu => ?_, fun u hu => ?_, fun u hu => ?_, fun u hu => ?_⟩,
    hcache, hsame, ?_, hperm⟩
  · rw [hcalls, if_neg h.type]
    simp only [Kmem.free, hfree, Option.map_some, Option.bind_some, h.descriptor]
    exact he
  · rw [h8, hcache]
    exact h.descriptor
  · rw [hsame u hu]
    exact h.owner u (.tail _ hu)
  · rw [hsame u hu]
    exact h.block u (.tail _ hu)
  · exact (htook u).2 ⟨(h₁.frame.live h.mem not_false).2 (h.live u (.tail _ hu)),
      fun he => (List.nodup_cons.1 h.nodup).1 (he ▸ hu)⟩
  · intro hx
    obtain ⟨a, ha, hta, hua⟩ := hx
    rw [hserved.caches] at ha
    have hta' : (k.cache a).type ≠ 0 := (congrArg Cache.type (hserved.fixed a) :) ▸ hta
    have had : a ≠ d := fun he => hta' (he ▸ ho.type)
    rw [hserved.frame.slabs ha had] at hua
    exact h.free u (.tail _ hu) ⟨a, ha, hta', hua⟩
  · rw [hblock, hbuddy]
    exact Buddy.freeAll_cons hfree rfl

/-- `deallocSlabGroup` gives the slabs of a list back. -/
theorem dealloc (h : Doomed k W c d (l ++ l') extra) (hl : Linked (fun s => (k.slab s).next) p l)
    (hlen : l.length ≤ fuel) :
    ∃ k' W', Cache.deallocSlabGroup fuel p k = some k' ∧
      Served k k' W W' (l'.map (k'.block c) ++ extra) (· = d) ∧
      Doomed k' W' c d l' extra ∧ k'.cache c = k.cache c ∧ (∀ u ∈ l', k'.slab u = k.slab u) ∧
      k.buddy.freeAll (l.map (k.block c)) = some k'.buddy ∧ (W'.blocks k').Perm (W.blocks k) := by
  induction l generalizing k W p fuel with
  | nil =>
    obtain rfl : p = none := hl
    refine ⟨k, W, ?_, .refl h.inv _, h, rfl, fun _ _ => rfl, rfl, .rfl⟩
    cases fuel <;> rfl
  | cons s l ih =>
    obtain ⟨rfl, hl⟩ := hl
    cases fuel with
    | zero => exact absurd hlen (Nat.not_succ_le_zero _)
    | succ fuel =>
      obtain ⟨k₁, W₁, he₁, hs₁, hd₁, hc₁, hsame₁, hf₁, hp₁⟩ := h.destroySlab
      have hl₁ : Linked (fun s => (k₁.slab s).next) (k.slab s).next l :=
        Seg.congr hl fun u hu => by rw [hsame₁ u (List.mem_append_left _ hu)]
      obtain ⟨k', W', he, hs, hd, hc, hsame, hf, hp⟩ := ih hd₁ hl₁ (Nat.le_of_succ_le_succ hlen)
      have hblocks : l.map (k₁.block c) = l.map (k.block c) := List.map_congr_left fun u hu =>
        block_congr (by rw [hc₁]) (by rw [hsame₁ u (List.mem_append_left _ hu)])
      refine ⟨k', W', ?_, hs₁.trans hs, hd, hc.trans hc₁, fun u hu =>
        (hsame u hu).trans (hsame₁ u (List.mem_append_right _ hu)),
        Buddy.freeAll_append hf₁ (hblocks ▸ hf), hp.trans hp₁⟩
      unfold Cache.deallocSlabGroup
      simp only [he₁, Option.bind_eq_bind, Option.bind_some]
      exact he

end Doomed

namespace Kmem.Inv

/-- `destroyCache` gives the slabs of a buffer cache back. -/
theorem destroyCache_buffer {i : Nat} (h : k.Inv V extra) (hc : c ∈ V.caches)
    (hb : (k.cache c).IsBuffer i) (hi : i < bufferNum) (hd : k.memBuffSlabs i = some d)
    (hdm : d ∈ V.caches) :
    ∃ k' V', Cache.destroyCache k c = some k' ∧ Served k k' (V.retire c) V' extra (· = d) ∧
      Returned k k' V V' := by
  have htype : (k.cache c).type ≠ 0 := by rw [hb.type]; decide
  obtain ⟨-, ho, -, -⟩ := h.classes.descriptor i d hd hdm
  have hcd : d ≠ c := fun he => htype (he ▸ ho.type)
  have hclass : k.memBuffSlabs (CachePool.getPowerOfTwo (k.cache c).slotSize) = some d := by
    rw [hb.slotSize, getPowerOfTwo_pow hi, hd]
  have hret := h.retire hc fun s hs hl => by
    refine h.not_header hc (fun n hn => ?_) hl ?_
    · exact htype (h.classes.descriptor n c hn hc).2.1.type
    · obtain ⟨a, ha, hta, hsa⟩ := hs
      exact ⟨a, List.mem_of_mem_erase ha, hta, hsa⟩
  have hlists := (h.reps c hc).shelves.lists
  have hlen : ∀ g, (V.lists c g).length ≤ addrSpace := fun g =>
    (h.list_length hc g).trans (by decide)
  have hperm := slabsOf_perm (V.lists c)
  have hmem : ∀ s ∈ V.lists c .FREE ++ (V.lists c .PARTIAL ++ V.lists c .FULL), s ∈ V.slabs c :=
    fun s hs => hperm.mem_iff.2 hs
  have hdoom : Doomed k (V.retire c) c d (V.lists c .FREE ++ (V.lists c .PARTIAL ++ V.lists c .FULL))
      extra := by
    refine ⟨?_, htype, hclass, h.nodup.mem_erase_iff.2 ⟨hcd, hdm⟩, ?_, fun s hs =>
      h.owner hc (hmem s hs), fun s hs => ((h.placed c hc s (hmem s hs)).buffer htype).1,
      fun s hs => ?_, fun s hs => ?_⟩
    · exact { hret with buddy := hret.buddy.perm (((hperm.map _).append_right _).append_left _) }
    · exact hperm.nodup_iff.1 (slabsOf_nodup (fun g => (hlists g).nodup)
        (h.reps c hc).shelves.disjoint)
    · obtain ⟨-, d', hdm', hd', hl⟩ := (h.placed c hc s (hmem s hs)).buffer htype
      rw [hclass, Option.some.injEq] at hd'
      subst hd'
      exact (Frame.live (.retire h.nodup) hdm hcd).2 hl
    · intro hx
      obtain ⟨a, ha, hta, hsa⟩ := hx
      obtain ⟨hac, ham⟩ := h.nodup.mem_erase_iff.1 ha
      exact hac (h.owner_inj ham hc hsa (hmem s hs))
  obtain ⟨k₁, V₁, he₁, hs₁, hd₁, hc₁, hsame₁, hf₁, hp₁⟩ :=
    hdoom.dealloc (hlists .FREE).linked (hlen _)
  obtain ⟨k₂, V₂, he₂, hs₂, hd₂, hc₂, hsame₂, hf₂, hp₂⟩ := hd₁.dealloc
    (Seg.congr (hlists .PARTIAL).linked fun u hu => by rw [hsame₁ u (List.mem_append_left _ hu)])
    (hlen _)
  rw [← List.append_nil (V.lists c .FULL)] at hd₂
  obtain ⟨k₃, V₃, he₃, hs₃, -, -, -, hf₃, hp₃⟩ := hd₂.dealloc (Seg.congr (hlists .FULL).linked
    fun u hu => by rw [hsame₂ u hu, hsame₁ u (List.mem_append_right _ hu)]) (hlen _)
  have hblocks₁ : ∀ u ∈ V.lists c .PARTIAL ++ V.lists c .FULL, k₁.block c u = k.block c u :=
    fun u hu => block_congr (by rw [hc₁]) (by rw [hsame₁ u hu])
  have hblocks₂ : ∀ u ∈ V.lists c .FULL, k₂.block c u = k₁.block c u :=
    fun u hu => block_congr (by rw [hc₂]) (by rw [hsame₂ u hu])
  rw [List.map_congr_left fun u hu => hblocks₁ u (List.mem_append_left _ hu)] at hf₂
  rw [List.map_congr_left fun u hu => (hblocks₂ u hu).trans
    (hblocks₁ u (List.mem_append_right _ hu))] at hf₃
  refine ⟨k₃, V₃, ?_, hs₁.trans (hs₂.trans hs₃), _, ?_,
    Buddy.freeAll_append hf₁ (Buddy.freeAll_append hf₂ hf₃)⟩
  swap
  · refine (blocks_split hc).trans (List.Perm.append ?_ (hp₃.trans (hp₂.trans hp₁)).symm)
    have hp := hperm.map (k.block c)
    simp only [List.map_append] at hp
    exact hp
  unfold Cache.destroyCache
  simp only [Cache.first] at he₁ he₂ he₃
  simp only [he₁, hc₁, he₂, hc₂, he₃, Option.bind_eq_bind, Option.bind_some]

end Kmem.Inv

/-! ## The pool -/

/-- `kmem_cache_destroy` on a cache of the pool, once its slabs have been given back. -/
theorem Kmem.Pooled.destroy (h : k.Pooled V extra) (hc : c ∈ V.caches)
    (he : Cache.destroyCache k c = some k₁) (hs : Served k k₁ (V.retire c) V₁ extra S)
    (hret : Returned k k₁ V V₁) :
    (V.listed ≠ V.records ∧ kmem_cache_destroy k (some c) = none) ∨
    ∃ k' V', kmem_cache_destroy k (some c) = some k' ∧ k'.Pooled V' extra ∧
      (Unbroken k V → Unbroken k' V') ∧
      Frame k k' V V' (fun a => a = c ∨ S a) ∧ V'.caches = V.caches.erase c ∧
      k'.memoryBuffers = k.memoryBuffers ∧ k'.memBuffSlabs = k.memBuffSlabs ∧
      Returned k k' V V' ∧ k'.calls = k₁.calls := by
  obtain ⟨h1, h2, h3, h4, h5, h6, h7, h8⟩ := Kmem.pool_eq hs.pool
  obtain ⟨hcaches, hrecords, hlisted, hslots⟩ := hs.same
  have hpool : Pool k₁ V := h.pool.congr (by rw [h1, h2, h3, h4, h5, h6]) fun a _ =>
    ⟨(congrArg Cache.next (hs.fixed a) :), (congrArg Cache.prev (hs.fixed a) :)⟩
  have hbuddy : Buddy.Inv k₁.buddy (V.records.map (·, 0) ++
      (V₁.caches.flatMap (V₁.slabBlocks k₁) ++ extra)) := by
    have := hs.inv.buddy
    unfold View.blocks at this
    rwa [hrecords, List.append_assoc] at this
  have hdealloc : kmem_cache_destroy k (some c) = CachePool.deallocateSlot k₁ c := by
    unfold kmem_cache_destroy
    simp only [he, Option.bind_eq_bind, Option.bind_some]
  rcases hpool.deallocateSlot hs.inv.start hc hbuddy with ⟨hl, he'⟩ | ⟨k', records, listed, slots, he',
    hpool', htight, hunbroken, hsame, hslab, hbufs, hdescs, hb, hg, l, hl, hfree, hcalls⟩
  · exact .inl ⟨hl, hdealloc.trans he'⟩
  have hnot : c ∉ V₁.caches := by
    rw [hcaches]
    exact h.nodup.not_mem_erase
  have hframe : Frame k₁ k' V₁ { V₁ with records, listed, slots } fun _ => False :=
    ⟨fun _ ha _ => ha, fun a ha _ => hsame a fun hac => hnot (hac ▸ ha), fun _ _ _ => rfl,
      fun _ _ _ _ _ => by rw [hslab], fun _ _ _ _ _ => rfl⟩
  have hlay : ∀ a ∈ V₁.caches, (k'.cache a).layout = (k₁.cache a).layout := fun a ha =>
    (congrArg Cache.layout (hframe.cache a ha not_false) :)
  have hblocks : V₁.caches.flatMap (({ V₁ with records, listed, slots } : View).slabBlocks k') =
      V₁.caches.flatMap (V₁.slabBlocks k₁) :=
    List.flatMap_congr fun a ha => hframe.slabBlocks ha not_false
  have hinv : k'.Inv { V₁ with records, listed, slots } extra := by
    refine hs.inv.of_frame hframe hs.inv.nodup ⟨fun a ha => ?_, fun i a hi ha => ?_,
      fun i d hi hd => ?_⟩ (fun i d hi _ => ⟨hdescs ▸ hi, not_false⟩)
      (fun a ha => .inl ⟨ha, not_false⟩) ?_ hg
    · rw [hbufs]
      exact (hs.inv.classes.kind a ha).imp_left fun ho => ho.congr (hlay a ha)
    · rw [hbufs] at hi
      obtain ⟨hlt, hba⟩ := hs.inv.classes.buffer i a hi ha
      exact ⟨hlt, hba.congr (hlay a ha)⟩
    · rw [hdescs] at hi
      obtain ⟨hlt, hod, horder, hsize⟩ := hs.inv.classes.descriptor i d hi hd
      obtain ⟨-, h2, -, h4, -⟩ := Cache.layout_eq (hlay d hd)
      exact ⟨hlt, hod.congr (hlay d hd), h4.trans horder, h2.trans hsize⟩
    · refine hb.perm (.of_eq ?_)
      unfold View.blocks
      rw [← List.append_assoc, ← hblocks]
  have hall : Frame k k' V { V₁ with records, listed, slots } fun a => a = c ∨ S a :=
    ((Frame.retire h.nodup).mono fun _ => .inl).trans
      ((hs.frame.mono fun _ => .inr).trans (hframe.mono fun _ => False.elim))
  have hret' : Returned k₁ k' V₁ { V₁ with records, listed, slots } := by
    refine ⟨_, ?_, hfree⟩
    unfold View.blocks
    rw [hblocks, ← List.append_assoc, ← List.map_append, hrecords]
    exact (hl.map (·, 0)).append_right _
  refine .inr ⟨k', _, hdealloc.trans he', { hinv with pool := ?_, tight := ?_ }, fun hu => ?_, hall,
    hcaches, hbufs.trans h7, hdescs.trans h8, hret.trans hret', hcalls⟩
  · exact hpool'.view hcaches rfl rfl rfl
  · have ht := htight h.tight
    exact ⟨by simp only [hcaches]; exact ht.slots, by simp only [hcaches]; exact ht.busy⟩
  · refine hunbroken ?_
    unfold Unbroken
    rw [h4]
    exact hu

/-- `kmem_cache_destroy` on an object cache without headers. -/
theorem Kmem.Whole.destroy (h : k.Whole V extra) (hc : c ∈ V.caches) (ho : (k.cache c).IsObject)
    (hd : ∀ i, k.memBuffSlabs i ≠ some c) :
    (V.listed ≠ V.records ∧ kmem_cache_destroy k (some c) = none) ∨
    ∃ k' V', kmem_cache_destroy k (some c) = some k' ∧ k'.Whole V' extra ∧
      (Unbroken k V → Unbroken k' V') ∧
      Frame k k' V V' (· = c) ∧ V'.caches = V.caches.erase c ∧
      k'.memoryBuffers = k.memoryBuffers ∧ k'.memBuffSlabs = k.memBuffSlabs ∧
      Returned k k' V V' ∧ k'.calls = k.calls ++
        (V.lists c .FREE ++ (V.lists c .PARTIAL ++ V.lists c .FULL)).flatMap (k.destructed c) := by
  obtain ⟨k₁, he, hs, hret, hcalls⟩ := h.destroyCache_object hc ho fun s hs hl => by
    obtain ⟨a, ha, hta, hsa⟩ := hs
    exact h.not_header hc hd hl ⟨a, List.mem_of_mem_erase ha, hta, hsa⟩
  rcases h.toPooled.destroy hc he hs hret with
    hfail | ⟨k', V', he', hp, hu, hf, hcaches, hbufs, hdescs, hret', hcalls'⟩
  · exact .inl hfail
  refine .inr ⟨k', V', he', { hp with buffers := fun i a hi => ?_, descriptors := fun i d hi => ?_ },
    hu, hf.mono fun _ hor => hor.resolve_right not_false, hcaches, hbufs, hdescs, hret',
    hcalls'.trans hcalls⟩
  · rw [hbufs] at hi
    have ha := h.buffers i a hi
    rw [hcaches]
    refine h.nodup.mem_erase_iff.2 ⟨?_, ha⟩
    intro he
    subst he
    exact absurd ((h.classes.buffer i a hi ha).2.type.symm.trans ho.type) (by decide)
  · rw [hdescs] at hi
    rw [hcaches]
    exact h.nodup.mem_erase_iff.2 ⟨fun he => hd i (he ▸ hi), h.descriptors i d hi⟩

end SlabKernel
