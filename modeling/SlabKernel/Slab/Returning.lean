import SlabKernel.Slab.Boot

/-!
# The way back of a buffer

`kfree` gets an address only. `PutBack` says that the search by page finds the one slab with the
address in its block, that the slot computed from the address is the one it was handed out from, and
that every other slab keeps its contents and its list. `Sorted`: a slab is on the list that its free
slots call for. Both hold for every live buffer of every run (`kfree_right_slot`); an address whose
page is not the memory of a partial or full slab changes nothing (`Kmem.Inv.kfree_stray`).
-/

namespace SlabKernel

open Function (update update_self update_of_ne)
open PtrList CachePool Runs

variable {k k' : Kmem} {V V' : View} {extra : List (Nat × Nat)} {c i j p t : Nat}

/-- The slabs of the cache `c` are free, partial or full iff all, some or none of their slots
are free. -/
structure Sorted (k : Kmem) (V : View) (c : Nat) : Prop where
  free : ∀ t ∈ V.slabs c, (t ∈ V.lists c .FREE ↔ ∀ j < (k.cache c).objNum, j ∈ V.chain t)
  full : ∀ t ∈ V.slabs c, (t ∈ V.lists c .FULL ↔ ∀ j < (k.cache c).objNum, j ∉ V.chain t)
  part : ∀ t ∈ V.slabs c, (t ∈ V.lists c .PARTIAL ↔
    (∃ j < (k.cache c).objNum, j ∈ V.chain t) ∧ ∃ j < (k.cache c).objNum, j ∉ V.chain t)

/-- The buffer at `p` has gone back to the slot `j` of the slab `t` of the cache `c`. -/
structure PutBack (k k' : Kmem) (V V' : View) (c t j p : Nat) : Prop where
  slot : Slot k V c t j p ∧ j ∉ V.chain t
  found : Slab.findBuffer k (some (p / blockSize * blockSize)) bufferNum 0 = some (some t)
  only : ∀ i c' t' m, k.memoryBuffers i = some c' → t' ∈ V.slabs c' → (k.slab t').mem = some m →
    m ≤ p → p < m + 2 ^ (k.cache c').slabOrder * blockSize → c' = c ∧ t' = t
  index : ∃ m, (k.slab t).mem = some m ∧ sub64 p m / (k.cache c).slotSize % 2 ^ 32 = j
  first : (k'.slab t).free = j ∧ (Slab.takeObject k' (some t)).map Prod.fst = some (some p)
  chain : V'.chain = update V.chain t (j :: V.chain t)
  slab : ∀ u, u ≠ t → (k'.slab u).body = (k.slab u).body
  lists : ∀ c' ∈ V.caches, ∀ g u, u ≠ t → (u ∈ V'.lists c' g ↔ u ∈ V.lists c' g)
  frame : Frame k k' V V' (· = c)
  caches : ∀ c' ∈ V.caches, c' ≠ c → k'.cache c' = k.cache c'
  classes : k'.memoryBuffers = k.memoryBuffers ∧ k'.memBuffSlabs = k.memBuffSlabs
  live : ∀ i q, LiveBuffer k' V' i q ↔ LiveBuffer k V i q ∧ q ≠ p

/-! ## Lists -/

/-- The free slots determine the list. -/
theorem Level.unique {n m : Nat} {g g' : SlabGroup} (hm : 1 ≤ m) (h : Level n m g)
    (h' : Level n m g') : g = g' := by
  cases g <;> cases g' <;> simp only [Level] at h h' <;> first | rfl | omega

namespace CacheRep

variable {L L' : SlabGroup → List Nat} {ch ch' : Nat → List Nat} {g : SlabGroup}

theorem mem_iff (h : CacheRep k c L ch) (ht : t ∈ slabsOf L) :
    t ∈ L g ↔ Level (ch t).length (k.cache c).objNum g := by
  constructor
  · exact h.level g t
  · intro hl
    obtain ⟨g', hg'⟩ := mem_slabsOf.1 ht
    obtain rfl := Level.unique h.objNum.1 (h.level g' t hg') hl
    exact hg'

/-- A slab with the same free slots stays on its list. -/
theorem same_list (h : CacheRep k c L ch) (h' : CacheRep k' c L' ch')
    (hobj : (k'.cache c).objNum = (k.cache c).objNum) (hch : ch' t = ch t)
    (ht : t ∈ slabsOf L' ↔ t ∈ slabsOf L) : t ∈ L' g ↔ t ∈ L g := by
  constructor
  · intro hm
    have hs := mem_slabsOf.2 ⟨g, hm⟩
    rw [h.mem_iff (ht.1 hs), ← hch, ← hobj]
    exact h'.level g t hm
  · intro hm
    have hs := mem_slabsOf.2 ⟨g, hm⟩
    rw [h'.mem_iff (ht.2 hs), hch, hobj]
    exact h.level g t hm

end CacheRep

namespace Kmem.Inv

theorem sorted (h : k.Inv V extra) (hc : c ∈ V.caches) : Sorted k V c := by
  have hrep := h.reps c hc
  have hpos := hrep.objNum.1
  have hfill : ∀ t ∈ V.slabs c, (V.chain t).Nodup ∧ V.chain t ⊆ List.range (k.cache c).objNum := by
    intro t ht
    obtain ⟨g, hg⟩ := mem_slabsOf.1 ht
    have hf := hrep.filled g t hg
    exact ⟨hf.nodup, fun j hj => List.mem_range.2 (hf.bound j hj)⟩
  have hall : ∀ t ∈ V.slabs c, ((V.chain t).length = (k.cache c).objNum ↔
      ∀ j < (k.cache c).objNum, j ∈ V.chain t) := by
    intro t ht
    obtain ⟨hnd, hsub⟩ := hfill t ht
    constructor
    · intro hlen j hj
      have hp := (hnd.subperm hsub).perm_of_length_le (by rw [List.length_range, hlen])
      exact hp.mem_iff.2 (List.mem_range.2 hj)
    · intro hj
      have h1 := (hnd.subperm hsub).length_le
      have h2 := (List.nodup_range.subperm fun j hm => hj j (List.mem_range.1 hm)).length_le
      rw [List.length_range] at h1 h2
      exact Nat.le_antisymm h1 h2
  have hnone : ∀ t ∈ V.slabs c, ((V.chain t).length = 0 ↔
      ∀ j < (k.cache c).objNum, j ∉ V.chain t) := by
    intro t ht
    obtain ⟨-, hsub⟩ := hfill t ht
    rw [List.length_eq_zero_iff, List.eq_nil_iff_forall_not_mem]
    exact ⟨fun hn j _ => hn j, fun hn j hm => hn j (List.mem_range.1 (hsub hm)) hm⟩
  refine ⟨fun t ht => ?_, fun t ht => ?_, fun t ht => ?_⟩
  · rw [hrep.mem_iff ht]
    exact hall t ht
  · rw [hrep.mem_iff ht]
    exact hnone t ht
  · have h1 := hall t ht
    have h2 := hnone t ht
    have hle : (V.chain t).length ≤ (k.cache c).objNum := by
      obtain ⟨hnd, hsub⟩ := hfill t ht
      have := (hnd.subperm hsub).length_le
      rwa [List.length_range] at this
    rw [hrep.mem_iff ht]
    constructor
    · intro hl
      refine ⟨?_, ?_⟩
      · by_contra hcon
        exact absurd (h2.2 fun j hj hm => hcon ⟨j, hj, hm⟩) hl.1.ne'
      · by_contra hcon
        exact absurd (h1.2 fun j hj => by_contra fun hm => hcon ⟨j, hj, hm⟩) hl.2.ne
    · intro hx
      obtain ⟨⟨j, hj, hm⟩, j', hj', hm'⟩ := hx
      refine ⟨Nat.pos_of_ne_zero fun h0 => h2.1 h0 j hj hm, ?_⟩
      exact Nat.lt_of_le_of_ne hle fun he => hm' (h1.1 he j' hj')

/-- An address outside of the memory of the partial and full slabs is ignored. -/
theorem kfree_stray (h : k.Inv V extra)
    (hbufs : ∀ i c, k.memoryBuffers i = some c → c ∈ V.caches)
    (hno : ∀ i c g t, k.memoryBuffers i = some c → g ≠ .FREE → t ∈ V.lists c g →
      (k.slab t).mem ≠ some (p / blockSize * blockSize)) :
    SlabKernel.kfree k (some p) = some k := by
  unfold SlabKernel.kfree deallocateBuffer Slab.putBuffer
  simp only [h.findBuffer_none hbufs hno, Option.bind_eq_bind, Option.bind_some, pure]

/-- One slab has an address in its block. -/
theorem slab_of_byte {t' m m' c' : Nat} (h : k.Inv V extra) (hc : c ∈ V.caches)
    (hb : (k.cache c).type ≠ 0) (ht : t ∈ V.slabs c) (hm : (k.slab t).mem = some m)
    (hc' : c' ∈ V.caches) (hb' : (k.cache c').type ≠ 0) (ht' : t' ∈ V.slabs c')
    (hm' : (k.slab t').mem = some m') (hp : m ≤ p)
    (hp' : p < m + 2 ^ (k.cache c).slabOrder * blockSize) (hq : m' ≤ p)
    (hq' : p < m' + 2 ^ (k.cache c').slabOrder * blockSize) : c' = c ∧ t' = t := by
  have hblock : k.block c t = (m, (k.cache c).slabOrder) := by
    unfold Kmem.block
    rw [if_neg hb, hm]
    rfl
  have hblock' : k.block c' t' = (m', (k.cache c').slabOrder) := by
    unfold Kmem.block
    rw [if_neg hb', hm']
    rfl
  apply h.block_inj hc' ht' hc ht
  by_contra hne
  have := h.buddy.apart (block_mem (k := k) hc' ht') (block_mem hc ht) hne
  rw [hblock, hblock'] at this
  simp only at this
  omega

/-- A live buffer goes back to the slot it came from. -/
theorem put_back_slot (h : k.Inv V extra)
    (hbufs : ∀ i c, k.memoryBuffers i = some c → c ∈ V.caches)
    (hc : k.memoryBuffers i = some c) (hslot : Slot k V c t j p) (hj : j ∉ V.chain t) :
    ∃ k' V', SlabKernel.kfree k (some p) = some k' ∧ Served k k' V V' extra (· = c) ∧
      Took k k' V V' c p ∧ PutBack k k' V V' c t j p := by
  have hcm := hbufs i c hc
  have hbuf : ∀ i c, k.memoryBuffers i = some c → (k.cache c).type ≠ 0 := by
    intro i c hi
    rw [(h.classes.buffer i c hi (hbufs i c hi)).2.type]
    decide
  obtain ⟨hfind, hm, hindex, k', L, he, hrep, hperm, hblocks, hbody, hserved, htook⟩ :=
    h.kfree_slot hbufs hc hslot hj
  obtain ⟨h1, h2, -⟩ := h.slot_inside hcm hslot
  have hpos := h.slotSize_pos hcm
  unfold Kmem.block at h1 h2
  rw [if_neg (hbuf i c hc), hm] at h1 h2
  simp only [Option.getD_some] at h1 h2
  obtain ⟨-, -, -, -, -, -, h7, h8⟩ := Kmem.pool_eq hserved.pool
  obtain ⟨-, hsize, -, -, hobj⟩ := Cache.layout_eq
    (show (k'.cache c).layout = (k.cache c).layout from (congrArg Cache.layout (hserved.fixed c) :))
  refine ⟨k', _, he, hserved, htook, ⟨⟨hslot, hj⟩, hfind, ?_, ⟨_, hm, hindex⟩, ?_, rfl, hbody, ?_,
    hserved.frame, fun c' hc' hne => hserved.cache_eq hc' hne, ⟨h7, h8⟩,
    h.liveBuffer_took hbufs hcm ⟨t, j, hslot, hj⟩ hserved htook⟩⟩
  · intro i' c' t' m' hc' ht' hm' hq hq'
    exact h.slab_of_byte hcm (hbuf i c hc) hslot.slab hm (hbufs i' c' hc') (hbuf i' c' hc') ht' hm'
      h1 (by omega) hq hq'
  · obtain ⟨g, hg⟩ := mem_slabsOf.1 (hperm.mem_iff.2 hslot.slab)
    have hfill := hrep.filled g t hg
    rw [update_self] at hfill
    have hfree := link_eq_some hfill.chain.1
    obtain ⟨m, hm', hp⟩ := hslot.addr
    have hmem : (k'.slab t).mem = some m := (hblocks.mem t).trans hm'
    refine ⟨hfree, ?_⟩
    unfold Slab.takeObject
    simp only [hmem, hfree, hfill.owner, hsize, Option.bind_eq_bind, Option.bind_some, pure,
      Option.map_some, ← hp]
  · intro c' hc' g u hu
    by_cases hcc : c' = c
    · subst hcc
      rw [View.put_lists]
      exact (h.reps c' hc').same_list hrep hobj (update_of_ne hu _ _) hperm.mem_iff
    · rw [hserved.frame.lists c' hc' hcc]

end Kmem.Inv

/-! ## Runs -/

namespace SlabClient

variable {s : SlabClient}

/-- **`kfree` returns the right slot.** In every state of a run, the slabs of every class are on the
lists their free slots call for; every live buffer goes back to the slot it came from, whatever its
class, and the slabs are again on the lists their free slots call for; an address outside of the
memory of the partial and full slabs changes nothing. -/
theorem kfree_right_slot {heap : HeapBounds} {space : Nat} {blockNum : Int} {ops : List SlabCall}
    (hinit : kmem_init heap 12 space blockNum = some k)
    (hrun : Run Ok SlabClient.step (boot k) ops s) :
    ∃ V, s.Inv V [] ∧ (∀ c ∈ V.caches, Sorted s.kmem V c) ∧
    (∀ q ∈ s.buffers, ∃ c t j k' V',
      s.kmem.memoryBuffers (getPowerOfTwo q.2) = some c ∧
      SlabKernel.kfree s.kmem (some q.1) = some k' ∧
      ({ s with kmem := k', buffers := s.buffers.filter fun r => r.1 ≠ q.1 } : SlabClient).Inv V'
        [] ∧
      PutBack s.kmem k' V V' c t j q.1 ∧ ∀ c ∈ V'.caches, Sorted k' V' c) ∧
    ∀ p, (∀ i c g t, s.kmem.memoryBuffers i = some c → g ≠ .FREE → t ∈ V.lists c g →
        (s.kmem.slab t).mem ≠ some (p / blockSize * blockSize)) →
      SlabKernel.kfree s.kmem (some p) = some s.kmem := by
  obtain ⟨V, h⟩ := run_inv (boot_inv hinit) hrun
  have hbufs := h.whole.buffers
  refine ⟨V, h, fun c hc => h.whole.sorted hc, fun q hq => ?_,
    fun p hno => h.whole.kfree_stray hbufs hno⟩
  obtain ⟨-, -, c, hc, t, j, hslot, hj⟩ := h.buffer q hq
  obtain ⟨k', V', he, hserved, htook, hput⟩ := h.whole.put_back_slot hbufs hc hslot hj
  exact ⟨c, t, j, k', V', hc, he, h.took_buffer hc ⟨t, j, hslot, hj⟩ hserved htook, hput,
    fun a ha => hserved.inv.sorted ha⟩

/-- A buffer of two pages and the second of two small ones. -/
theorem kfree_right_slot_heap128 : ∃ k s,
    kmem_init Buddy.heap128 12 Buddy.heap128.startAddr 4096 = some k ∧
    Run Ok SlabClient.step (boot k) [.kmalloc 8192, .kmalloc 64, .kmalloc 64] s ∧
    s.buffers.length = 3 ∧ ∃ V, ∀ q ∈ s.buffers, ∃ c t j k' V',
      SlabKernel.kfree s.kmem (some q.1) = some k' ∧ PutBack s.kmem k' V V' c t j q.1 := by
  have h : ((kmem_init Buddy.heap128 12 Buddy.heap128.startAddr 4096).bind fun k =>
      (SlabClient.step (boot k) (.kmalloc 8192)).bind fun s₁ =>
      (s₁.step (.kmalloc 64)).bind fun s₂ => (s₂.step (.kmalloc 64)).bind fun s =>
        if s₂.kmem.memoryBuffers (getPowerOfTwo 64) ≠ none ∧ s.buffers.length = 3 then some ()
        else none) = some () := by
    decide +kernel
  obtain ⟨k, hk, h⟩ := Option.bind_eq_some_iff.1 h
  obtain ⟨s₁, h₁, h⟩ := Option.bind_eq_some_iff.1 h
  obtain ⟨s₂, h₂, h⟩ := Option.bind_eq_some_iff.1 h
  obtain ⟨s, h₃, h⟩ := Option.bind_eq_some_iff.1 h
  obtain ⟨hc, hlen⟩ : s₂.kmem.memoryBuffers (getPowerOfTwo 64) ≠ none ∧ s.buffers.length = 3 := by
    by_contra hcon
    rw [if_neg hcon] at h
    cases h
  have hrun : Run Ok SlabClient.step (boot k) [.kmalloc 8192, .kmalloc 64, .kmalloc 64] s :=
    .cons ⟨by decide, by decide, fun _ => by decide⟩ h₁
      (.cons ⟨by decide, by decide, fun _ => by decide⟩ h₂
        (.cons ⟨by decide, by decide, fun hn => absurd hn hc⟩ h₃ .nil))
  obtain ⟨V, -, -, hfree, -⟩ := kfree_right_slot hk hrun
  refine ⟨k, s, hk, hrun, hlen, V, fun q hq => ?_⟩
  obtain ⟨c, t, j, k', V', -, he, -, hput, -⟩ := hfree q hq
  exact ⟨c, t, j, k', V', he, hput⟩

end SlabClient

end SlabKernel
