import SlabKernel.System.Computer

/-!
# Where the contexts and the stacks lie

The TCBs are objects of the slab allocator, the stacks blocks of the heap or buffers, and the heap
begins behind the memory of the buddy allocator (`Computer.Placed`); so no context and no stack
overlaps another (`Placed.layout`).
-/

namespace SlabKernel

open Function (update update_self update_of_ne)
open Rv64 Runs CachePool

variable {t u : Nat}

theorem word_toNat (ht : t < 2 ^ 64) : (word t).toNat = t := by
  unfold word
  rw [BitVec.toNat_ofNat, Nat.mod_eq_of_lt ht]

theorem word_inj (ht : t < 2 ^ 64) (hu : u < 2 ^ 64) (he : word t = word u) : t = u := by
  rw [← word_toNat ht, he, word_toNat hu]

/-- The memory of the buddy allocator. -/
abbrev Kmem.region (k : Kmem) : Nat × Nat := (k.buddy.kernelStartAddr, 2 ^ 12 * blockSize)

/-- The bytes of the heap. -/
abbrev HeapBounds.region (heap : HeapBounds) : Nat × Nat :=
  (heap.startAddr, heap.endAddr - heap.startAddr)

theorem stack_bytes (p : Nat) :
    HeapClient.bytes (p, MemoryAllocator.memAllocUnits stackSize) = stackSize := by
  change MemoryAllocator.memAllocUnits 4096 * memBlockSize % 2 ^ 64 = 4096
  decide

/-- A buffer lies in the memory of the buddy allocator. -/
theorem System.Sound.buffer_inside {x : System} {p n : Nat} (h : x.Sound)
    (hp : (p, n) ∈ x.shared.client.buffers) : Within (p, n) x.shared.client.kmem.region := by
  obtain ⟨V, hi⟩ := h.owns.view
  obtain ⟨c, -, hin, hle⟩ := SlabClient.Inv.item_of_buffer hi hp
  obtain ⟨hlo, hhi⟩ := Item.In.inside hi.whole hin
  exact ⟨hlo, (Nat.add_le_add_left hle p).trans hhi⟩

namespace Computer

variable {x : Computer} {heap : HeapBounds} {p q : Nat}

/-- A stack at `p` is a live block of the heap or a buffer. -/
def Owned (x : Computer) (p : Nat) : Prop :=
  (p, MemoryAllocator.memAllocUnits stackSize) ∈ x.heap.live ∨
    (p, stackSize) ∈ x.system.shared.client.buffers

/-- Each live thread but the main one has a block of the heap or a buffer as its stack, and no other
thread has it. The heap lies behind the memory of the buddy allocator, the stack of `main` outside of
both. -/
structure Placed (heap : HeapBounds) (x : Computer) : Prop where
  system : x.system.Sound
  holding : HeapClient.Holding heap x.heap
  behind : x.system.shared.client.kmem.buddy.kernelStartAddr + 2 ^ 12 * blockSize ≤ heap.startAddr
  mainEnd : x.mainStack.1 + x.mainStack.2 ≤ 2 ^ 64
  mainSlabs : Apart x.mainStack x.system.shared.client.kmem.region
  mainHeap : Apart x.mainStack heap.region
  owned : ∀ t ∈ x.kernel.tcbs, ∀ p, (x.kernel.tcb t).stack = some p → x.Owned p
  distinct : ∀ t ∈ x.kernel.tcbs, ∀ u ∈ x.kernel.tcbs,
    (x.kernel.tcb t).stack = (x.kernel.tcb u).stack → t = u

namespace Placed

theorem ram (h : x.Placed heap) (ht : t ∈ x.kernel.tcbs) : ramStart ≤ t ∧ t < ramEnd :=
  h.system.owns.inRam (c := .tcb) ht

theorem lt (h : x.Placed heap) (ht : t ∈ x.kernel.tcbs) : t < 2 ^ 64 :=
  (h.ram ht).2.trans (by decide)

/-- A TCB is an object of its cache. -/
theorem object (h : x.Placed heap) {V : View} (hi : x.system.shared.Inv V) (ht : t ∈ x.kernel.tcbs) :
    ∃ d ∈ x.system.shared.client.handles, x.system.cache .tcb = some d ∧
      (Item.object d t).In x.system.shared.client.kmem V x.system.shared.others ∧
      (Item.object d t).range x.system.shared.client.kmem = (t, sizeofTCB) := by
  obtain ⟨d, hd, hl⟩ := (h.system.owns.live .tcb t).1 ht
  obtain ⟨hh, hholds⟩ := h.system.owns.handle .tcb d hd
  refine ⟨d, hh, hd, SlabClient.Inv.item_of_live hi hl, ?_⟩
  simp only [Item.range, hholds.slotSize]
  rfl

/-- Two TCBs do not overlap. -/
theorem tcbs_apart (h : x.Placed heap) (ht : t ∈ x.kernel.tcbs) (hu : u ∈ x.kernel.tcbs)
    (hne : t ≠ u) : Apart (t, sizeofTCB) (u, sizeofTCB) := by
  obtain ⟨V, hi⟩ := h.system.owns.view
  obtain ⟨d, -, hd, hin, hr⟩ := h.object hi ht
  obtain ⟨d', -, hd', hin', hr'⟩ := h.object hi hu
  have hap := Item.apart hi.whole hin hin' fun he => hne (Item.object.inj he).2
  rwa [hr, hr'] at hap

/-- A TCB lies in the memory of the buddy allocator. -/
theorem tcb_inside (h : x.Placed heap) (ht : t ∈ x.kernel.tcbs) :
    Within (t, sizeofTCB) x.system.shared.client.kmem.region := by
  obtain ⟨V, hi⟩ := h.system.owns.view
  obtain ⟨d, -, hd, hin, hr⟩ := h.object hi ht
  have hw := Item.In.inside hi.whole hin
  rwa [hr] at hw

/-- A buffer lies there, too. -/
theorem buffer_inside (h : x.Placed heap) (hp : (p, stackSize) ∈ x.system.shared.client.buffers) :
    Within (p, stackSize) x.system.shared.client.kmem.region :=
  h.system.buffer_inside hp

theorem buffers_apart (h : x.Placed heap) (hp : (p, stackSize) ∈ x.system.shared.client.buffers)
    (hq : (q, stackSize) ∈ x.system.shared.client.buffers) (hne : p ≠ q) :
    Apart (p, stackSize) (q, stackSize) := by
  obtain ⟨V, hi⟩ := h.system.owns.view
  obtain ⟨c, -, hin, hle⟩ := SlabClient.Inv.item_of_buffer hi hp
  obtain ⟨c', -, hin', hle'⟩ := SlabClient.Inv.item_of_buffer hi hq
  have hap := Item.apart hi.whole hin hin' fun he => hne (Item.object.inj he).2
  simp only [Item.range] at hap
  exact hap.within ⟨le_rfl, Nat.add_le_add_left hle p⟩ ⟨le_rfl, Nat.add_le_add_left hle' q⟩

/-- A buffer is no part of a TCB: their caches are different. -/
theorem buffer_apart (h : x.Placed heap) (ht : t ∈ x.kernel.tcbs)
    (hp : (p, stackSize) ∈ x.system.shared.client.buffers) :
    Apart (t, sizeofTCB) (p, stackSize) := by
  obtain ⟨V, hi⟩ := h.system.owns.view
  obtain ⟨d, hh, hd, hin, hr⟩ := h.object hi ht
  obtain ⟨c, hc, hin', hle⟩ := SlabClient.Inv.item_of_buffer hi hp
  have hne : Item.object d t ≠ Item.object c p := fun he => by
    obtain ⟨rfl, -⟩ := Item.object.inj he
    exact hi.not_class hh _ hc
  have hap := Item.apart hi.whole hin hin' hne
  rw [hr] at hap
  simp only [Item.range] at hap
  exact hap.within ⟨le_rfl, le_rfl⟩ ⟨le_rfl, Nat.add_le_add_left hle p⟩

/-- A stack on the heap lies behind the memory of the buddy allocator. -/
theorem payload_inside (h : x.Placed heap)
    (hp : (p, MemoryAllocator.memAllocUnits stackSize) ∈ x.heap.live) :
    Within (p, stackSize) heap.region := by
  obtain ⟨hlo, hhi⟩ := h.holding.inside hp
  have hbytes := stack_bytes p
  unfold Within
  dsimp only at hlo hhi ⊢
  omega

/-- The place of a stack. -/
theorem stack_cases (h : x.Placed heap) (ht : t ∈ x.kernel.tcbs) :
    (x.kernel.tcb t).stack = none ∧ x.stackOf t = x.mainStack ∨
    ∃ p, (x.kernel.tcb t).stack = some p ∧ x.stackOf t = (p, stackSize) ∧ x.Owned p := by
  have hst := h.owned t ht
  unfold stackOf
  cases hs : (x.kernel.tcb t).stack with
  | none => exact .inl ⟨rfl, rfl⟩
  | some p => exact .inr ⟨p, rfl, rfl, hst p hs⟩

theorem heapEnd (h : x.Placed heap) : heap.startAddr < heap.endAddr ∧ heap.endAddr < 2 ^ 64 := by
  have := h.holding.room.room
  exact ⟨by omega, h.holding.room.word⟩

theorem slabsEnd (h : x.Placed heap) :
    x.system.shared.client.kmem.buddy.kernelStartAddr + 2 ^ 12 * blockSize ≤ 2 ^ 64 := by
  have := h.system.owns.ram.2
  unfold ramEnd ramStart at this
  omega

/-- The two regions of memory do not overlap. -/
theorem regions_apart (h : x.Placed heap) :
    Apart x.system.shared.client.kmem.region heap.region := .inl h.behind

theorem stack_end (h : x.Placed heap) (ht : t ∈ x.kernel.tcbs) :
    (x.stackOf t).1 + (x.stackOf t).2 ≤ 2 ^ 64 := by
  have hheap := h.heapEnd
  have hslabs := h.slabsEnd
  rcases h.stack_cases ht with ⟨-, he⟩ | ⟨p, -, he, hp | hp⟩ <;> rw [he]
  · exact h.mainEnd
  · obtain ⟨-, hhi⟩ := h.payload_inside hp
    dsimp only at hhi ⊢
    omega
  · obtain ⟨-, hhi⟩ := h.buffer_inside hp
    dsimp only at hhi ⊢
    omega

theorem tcb_stack_apart (h : x.Placed heap) (ht : t ∈ x.kernel.tcbs) (hu : u ∈ x.kernel.tcbs) :
    Apart (t, sizeofTCB) (x.stackOf u) := by
  have hin := h.tcb_inside ht
  rcases h.stack_cases hu with ⟨-, he⟩ | ⟨p, -, he, hp | hp⟩ <;> rw [he]
  · have hap := h.mainSlabs.within (x := x.mainStack) ⟨le_rfl, le_rfl⟩ hin
    exact hap.symm
  · exact h.regions_apart.within hin (h.payload_inside hp)
  · exact h.buffer_apart ht hp

theorem stacks_apart (h : x.Placed heap) (ht : t ∈ x.kernel.tcbs) (hu : u ∈ x.kernel.tcbs)
    (hne : t ≠ u) : Apart (x.stackOf t) (x.stackOf u) := by
  have hst : (x.kernel.tcb t).stack ≠ (x.kernel.tcb u).stack := fun he =>
    hne (h.distinct t ht u hu he)
  rcases h.stack_cases ht with ⟨hs, he⟩ | ⟨p, hs, he, hp⟩ <;>
    rcases h.stack_cases hu with ⟨hs', he'⟩ | ⟨q, hs', he', hq⟩ <;> rw [he, he']
  · exact absurd (hs.trans hs'.symm) hst
  · cases hq with
    | inl hq => exact h.mainHeap.within ⟨le_rfl, le_rfl⟩ (h.payload_inside hq)
    | inr hq => exact h.mainSlabs.within ⟨le_rfl, le_rfl⟩ (h.buffer_inside hq)
  · cases hp with
    | inl hp => exact (h.mainHeap.within ⟨le_rfl, le_rfl⟩ (h.payload_inside hp)).symm
    | inr hp => exact (h.mainSlabs.within ⟨le_rfl, le_rfl⟩ (h.buffer_inside hp)).symm
  · have hpq : p ≠ q := fun hpq => hst (hs.trans (hpq ▸ hs'.symm))
    rcases hp with hp | hp <;> rcases hq with hq | hq
    · have hap := h.holding.apart hp hq hpq
      simp only [stack_bytes] at hap
      exact hap
    · exact (h.regions_apart.within (h.buffer_inside hq) (h.payload_inside hp)).symm
    · exact h.regions_apart.within (h.buffer_inside hp) (h.payload_inside hq)
    · exact h.buffers_apart hp hq hpq

/-- **No context and no stack overlaps another.** -/
theorem layout {threads : List Word} (h : x.Placed heap)
    (hthreads : ∀ w ∈ threads, ∃ t ∈ x.kernel.tcbs, w = word t) : Layout threads x.stack := by
  have hword : ∀ w ∈ threads, ∃ t ∈ x.kernel.tcbs, w.toNat = t ∧ w = word t := fun w hw => by
    obtain ⟨t, ht, rfl⟩ := hthreads w hw
    exact ⟨t, ht, word_toNat (h.lt ht), rfl⟩
  have hcontext : ∀ t, Within (t + 24, 16) (t, sizeofTCB) := fun t => ⟨by simp, by
    simp only [sizeofTCB]
    omega⟩
  refine ⟨fun w hw => ?_, fun w hw => ?_, fun w hw w' hw' hne => ?_, fun w hw w' hw' hne => ?_,
    fun w hw w' hw' => ?_⟩ <;> obtain ⟨t, ht, hwt, rfl⟩ := hword w hw
  · have := (h.ram ht).2
    unfold ramEnd ramStart at this
    omega
  · unfold stack
    rw [hwt]
    exact h.stack_end ht
  · obtain ⟨u, hu, hwu, rfl⟩ := hword w' hw'
    rw [hwt, hwu]
    exact (h.tcbs_apart ht hu fun he => hne (congrArg word he)).within (hcontext t) (hcontext u)
  · obtain ⟨u, hu, hwu, rfl⟩ := hword w' hw'
    unfold stack
    rw [hwt, hwu]
    exact h.stacks_apart ht hu fun he => hne (congrArg word he)
  · obtain ⟨u, hu, hwu, rfl⟩ := hword w' hw'
    unfold stack
    rw [hwt, hwu]
    exact (h.tcb_stack_apart ht hu).within (hcontext t) ⟨le_rfl, le_rfl⟩

end Placed

end Computer

end SlabKernel
