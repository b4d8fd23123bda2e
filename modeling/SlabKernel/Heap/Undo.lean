import SlabKernel.Heap.Runs

/-!
# Freeing undoes allocating

Whatever was allocated and freed before, `kmem_free` gives the free list back that `kmem_alloc`
found: a coalesced tiling is determined by its live blocks (`Tiles.Coalesced.unique`). The exception
is a request of no bytes that splits the first free block. Its payload is the address of the
remainder, `kmem_free` does not find it below the head of the list, and the block comes behind it
(`Blocks.misplaced`, `undoes_iff`).
-/

namespace SlabKernel

open PtrList Tiles Runs

namespace MemoryAllocator

variable {m : MemoryAllocator} {l l₁ l₂ : List Tile} {b : Tile}

/-- The free list: the blocks that are linked both ways, each with its size. -/
def FreeList (m : MemoryAllocator) (F : List (Nat × Nat)) : Prop :=
  DList (fun a => (m.header a).next) (fun a => (m.header a).prev) m.fmem_head (F.map Prod.fst) ∧
    ∀ x ∈ F, (m.header x.1).size = x.2

/-- `kmem_alloc` of `size` returns, and if it gives an address, then `kmem_free` of it brings the
free list back, in increasing order. The first call makes the list (`start`). -/
def Undoes (m : MemoryAllocator) (size : Nat) : Prop :=
  ∃ p calls m', m.kmem_alloc size = some (p, calls, m') ∧ ∀ a, p = some a →
    ∃ F r calls' m'', m.start.FreeList F ∧ (F.map Prod.fst).Pairwise (· < ·) ∧
      m'.kmem_free (some a) = some (r, calls', m'') ∧ m''.FreeList F

/-- The request is for no bytes, and it splits the first free block. -/
def SplitsHead (m : MemoryAllocator) (size : Nat) : Prop :=
  size * memBlockSize % 2 ^ 64 = 0 ∧ ∃ head, m.start.fmem_head = some head ∧
    sizeofBlockHeader < (m.start.header head).size

/-- The free blocks with their sizes. -/
def sized (l : List Tile) : List (Nat × Nat) := (l.filter (·.free)).map fun b => (b.addr, b.size)

theorem sized_fst (l : List Tile) : (sized l).map Prod.fst = frees l := by
  unfold sized frees
  rw [List.map_map]
  rfl

/-- The product counts only up to the wrap. -/
theorem kmem_alloc_mod (m : MemoryAllocator) (n : Nat) :
    m.kmem_alloc (n % 2 ^ 58) = m.kmem_alloc n := by
  have hmod : n % 2 ^ 58 * memBlockSize % 2 ^ 64 = n * memBlockSize % 2 ^ 64 := by
    unfold memBlockSize
    omega
  unfold kmem_alloc
  rw [hmod]

namespace Blocks

theorem freeList (h : Blocks m l) : m.FreeList (sized l) := by
  refine ⟨?_, fun x hx => ?_⟩
  · rw [sized_fst]
    exact h.links
  · obtain ⟨b, hb, rfl⟩ := List.mem_map.1 hx
    exact h.size b (List.mem_filter.1 hb).1

/-- The free blocks behind a free block of a coalesced tiling lie above its payload. -/
theorem above_of_coalesced (h : Blocks m (l₁ ++ b :: l₂)) (hb : b.free = true)
    (hc : Coalesced (l₁ ++ b :: l₂)) : ∀ x ∈ frees l₂, b.addr + sizeofBlockHeader < x := by
  obtain ⟨-, hright⟩ := hc.around hb
  obtain ⟨-, h2⟩ := h.around
  cases l₂ with
  | nil => exact fun x hx => nomatch hx
  | cons c l₂ =>
    have hcf : c.free = false := hright c rfl
    have hbc := h2 c (.head _)
    intro x hx
    rw [frees_cons_live hcf] at hx
    obtain ⟨d, hd, -, rfl⟩ := mem_frees.1 hx
    have hcd : c.addr + 24 + c.size ≤ d.addr := by
      rw [List.append_cons] at h
      exact h.around.2 d hd
    unfold sizeofBlockHeader
    omega

/-- The block that `kmem_alloc` has cut from `b` comes back. -/
theorem kmem_free_cut {n : Nat} {m' : MemoryAllocator} (h : Blocks m (l₁ ++ b :: l₂))
    (hb : b.free = true) (hc : Coalesced (l₁ ++ b :: l₂)) (hword : m.heap.endAddr < 2 ^ 64)
    (h' : Blocks m' (l₁ ++ (b.cut sizeofBlockHeader n ++ l₂))) (hheap : m'.heap = m.heap)
    (hn : 0 < n ∨ b.size - n ≤ sizeofBlockHeader) :
    ∃ calls m'', m'.kmem_free (some (b.addr + sizeofBlockHeader)) = some (0, calls, m'') ∧
      Blocks m'' (l₁ ++ b :: l₂) := by
  -- the block, and what stands behind it
  obtain ⟨size, rest, hcut, hrest, hpos⟩ : ∃ size rest,
      b.cut sizeofBlockHeader n ++ l₂ = ⟨b.addr, size, false⟩ :: rest ∧ lives rest = lives l₂ ∧
      ∀ x ∈ frees rest, b.addr + sizeofBlockHeader < x := by
    have habove := h.above_of_coalesced hb hc
    unfold Tile.cut
    split
    · rename_i hrem
      refine ⟨n, ⟨b.addr + (sizeofBlockHeader + n), b.size - n - sizeofBlockHeader, true⟩ :: l₂,
        rfl, lives_cons_free rfl, fun x hx => ?_⟩
      rw [frees_cons_free rfl] at hx
      cases List.mem_cons.1 hx with
      | inl hx =>
        simp only at hx
        omega
      | inr hx => exact habove x hx
    · exact ⟨b.size, l₂, rfl, rfl, habove⟩
  have hc' : Coalesced (l₁ ++ (b.cut sizeofBlockHeader n ++ l₂)) := hc.cut hb
  rw [hcut] at h' hc'
  obtain ⟨calls, m'', l', he, hheap', -, h'', hc'', hlives, -⟩ :=
    h'.kmem_free rfl hpos hc' (hheap ▸ hword)
  have hl : lives l' = lives (l₁ ++ b :: l₂) := by
    rw [hlives, lives_append, lives_cons_free hb, hrest]
  have ht := h.tiling
  rw [← hheap, ← hheap'] at ht
  rw [hc''.unique hc h''.tiling ht (by decide) hl] at h''
  exact ⟨calls, m'', he, h''⟩

/-- A block of no bytes in front of the first free block comes behind it. -/
theorem misplaced {a s : Nat} (h : Blocks m (l₁ ++ ⟨a, 0, false⟩ ::
      ⟨a + sizeofBlockHeader, s, true⟩ :: l₂)) (hnil : frees l₁ = []) :
    ∃ calls m', m.kmem_free (some (a + sizeofBlockHeader)) = some (0, calls, m') ∧
      DList (fun x => (m'.header x).next) (fun x => (m'.header x).prev) m'.fmem_head
        ((a + sizeofBlockHeader) :: a :: frees l₂) := by
  have hbehind : ∀ y ∈ frees l₂, a + sizeofBlockHeader < y := by
    intro y hy
    obtain ⟨c, hc, -, rfl⟩ := mem_frees.1 hy
    have hr := h
    rw [List.append_cons] at hr
    have := hr.around.2 c hc
    simp only at this
    omega
  have hp := h.pool
  rw [frees_append, hnil, frees_cons_live rfl, frees_cons_free rfl, List.nil_append] at hp
  have hl := hp.links.linked
  have hseek : m.seek (a + sizeofBlockHeader) = some (some (a + sizeofBlockHeader)) := by
    unfold MemoryAllocator.seek
    have hh : m.fmem_head = some (a + sizeofBlockHeader) := hl.1
    simp only [hh, if_neg (Nat.lt_irrefl _)]
    have hnone : ∀ x ∈ ([] : List Nat), x < a + sizeofBlockHeader := fun x hx => nomatch hx
    rw [seekLoop_spec ⟨rfl, hl.2⟩ hnone (fun y hy => Nat.le_of_lt (hbehind y hy)) (by decide)]
    rfl
  have hp₁ : Pool m (l₁ ++ ⟨a, 0, false⟩ :: ⟨a + sizeofBlockHeader, s, true⟩ :: l₂)
      ([a + sizeofBlockHeader] ++ frees l₂) := hp
  have h₁ := hp₁.link rfl
  have hj₁ := h₁.join_none (b := ⟨a, 0, true⟩) (by simp) fun x hx he => by
    have := hbehind x (List.mem_of_head? hx)
    unfold Tile.stop at he
    simp only at he
    omega
  have h₂ : Pool (m.linkBlock a (some (a + sizeofBlockHeader)))
      (l₁ ++ ⟨a, 0, true⟩ :: ⟨a + sizeofBlockHeader, s, true⟩ :: l₂)
      ([] ++ (a + sizeofBlockHeader) :: a :: frees l₂) := h₁
  have hj₂ := h₂.join_none (b := ⟨a + sizeofBlockHeader, s, true⟩) (by simp) fun x hx he => by
    rw [List.head?_cons, Option.mem_some_iff] at hx
    unfold Tile.stop sizeofBlockHeader at he
    simp only at he
    omega
  exact ⟨_, _, kmem_free_eq hseek (Nat.add_sub_cancel _ _) hj₁ hj₂, h₁.links⟩

end Blocks

end MemoryAllocator

namespace HeapClient

variable {s : HeapClient} {heap : HeapBounds} {m : MemoryAllocator} {l : List Tile}
  {o : List (Tile × Nat)} {live : List (Nat × Nat)} {size : Nat}

/-! ## One request -/

theorem Inv.undoes (h : Inv ⟨m.start, live⟩ l o) (hs : ¬ m.SplitsHead size) : m.Undoes size := by
  have hmod : size % 2 ^ 58 * memBlockSize < 2 ^ 64 := by unfold memBlockSize; omega
  have hbytes : size % 2 ^ 58 * memBlockSize = size * memBlockSize % 2 ^ 64 := by
    unfold memBlockSize
    omega
  unfold MemoryAllocator.Undoes
  rw [← MemoryAllocator.kmem_alloc_mod, ← kmem_alloc_start]
  cases h.blocks.kmem_alloc h.started h.word hmod with
  | inl hnone => exact ⟨none, [], _, hnone.1, fun a ha => nomatch ha⟩
  | inr hsome =>
    obtain ⟨l₁, b, l₂, m', rfl, hb, hle, hall, he, hheap, -, h'⟩ := hsome
    refine ⟨_, _, _, he, fun a ha => ?_⟩
    obtain rfl := Option.some.inj ha
    have hn : 0 < size % 2 ^ 58 * memBlockSize ∨
        b.size - size % 2 ^ 58 * memBlockSize ≤ sizeofBlockHeader := by
      by_contra hn
      rw [not_or, not_lt, not_le, Nat.le_zero] at hn
      obtain ⟨h0, hrem⟩ := hn
      -- no block in front of `b` is free
      have hnil : frees l₁ = [] := by
        cases hf : frees l₁ with
        | nil => rfl
        | cons x xs =>
          have := hall x (by rw [hf]; exact .head _)
          omega
      have hl := h.blocks.links.linked
      rw [frees_append, hnil, frees_cons_free hb] at hl
      refine hs ⟨by omega, b.addr, hl.1, ?_⟩
      have hsz := h.blocks.size b (by simp)
      simp only at hsz
      rw [hsz]
      omega
    obtain ⟨calls, m'', hfree, h''⟩ :=
      h.blocks.kmem_free_cut hb h.coalesced h.word h' hheap hn
    refine ⟨_, 0, calls, m'', h.blocks.freeList, ?_, hfree, h''.freeList⟩
    rw [MemoryAllocator.sized_fst]
    exact h.blocks.tiling.frees_sorted (by decide)

theorem Inv.not_undoes (h : Inv ⟨m.start, live⟩ l o) (hs : m.SplitsHead size) :
    ¬ m.Undoes size := by
  have h0 : size % 2 ^ 58 * memBlockSize = 0 := by
    have := hs.1
    unfold memBlockSize at this ⊢
    omega
  obtain ⟨-, head, hhead, hlarge⟩ := hs
  unfold MemoryAllocator.Undoes
  rw [← MemoryAllocator.kmem_alloc_mod, ← kmem_alloc_start]
  intro ⟨p, calls, m₁, he₁, hundo⟩
  have hl := h.blocks.links.linked
  cases h.blocks.kmem_alloc h.started h.word (n := size % 2 ^ 58) (by omega) with
  | inl hnone =>
    obtain ⟨b, hb, hbf, -⟩ : ∃ b ∈ l, b.free = true ∧ b.addr = head := by
      apply mem_frees.1
      simp only [hhead] at hl
      obtain ⟨xs, hxs, -⟩ := Linked.cons_of_some hl
      rw [hxs]
      exact .head _
    have := hnone.2 b hb hbf
    omega
  | inr hsome =>
    obtain ⟨l₁, b, l₂, m', rfl, hb, -, hall, he, -, -, h'⟩ := hsome
    have hnil : frees l₁ = [] := by
      cases hf : frees l₁ with
      | nil => rfl
      | cons x xs =>
        have := hall x (by rw [hf]; exact .head _)
        omega
    rw [frees_append, hnil, frees_cons_free hb, List.nil_append] at hl
    obtain rfl : head = b.addr := Option.some.inj (hhead.symm.trans hl.1)
    have hsz := h.blocks.size b (by simp)
    simp only at hsz
    rw [hsz] at hlarge
    rw [h0] at h'
    unfold Tile.cut at h'
    rw [if_pos (by omega)] at h'
    obtain ⟨calls', m₂, hfree, hlinks⟩ := h'.misplaced hnil
    -- the list before and the list after
    obtain ⟨rfl, -, rfl⟩ : some (b.addr + sizeofBlockHeader) = p ∧ _ ∧ m' = m₁ := by
      simpa using he.symm.trans he₁
    obtain ⟨F, r, calls'', m'', hF, -, hfree', hF''⟩ := hundo _ rfl
    rw [hfree] at hfree'
    obtain ⟨-, -, rfl⟩ : _ ∧ _ ∧ m₂ = m'' := by simpa using hfree'
    have h1 := Linked.unique hF.1.linked hl
    rw [DList.unique hF''.1 hlinks] at h1
    have := (List.cons.inj h1).1
    unfold sizeofBlockHeader at this
    omega

/-! ## Runs -/

/-- Requests are for at least one byte, after the wrap of the product too; only live addresses are
freed. -/
def OkBytes (s : HeapClient) : HeapCall → Prop
  | .alloc n => n * memBlockSize % 2 ^ 64 ≠ 0
  | .free addr => ∃ n, (addr, n) ∈ s.live

/-- A heap in use, up to what the requests were before the wrap. -/
def ReachedMod (heap : HeapBounds) (s : HeapClient) : Prop :=
  ∃ s', Reached heap s' ∧ s'.heap = s.heap ∧ s'.live.map Prod.fst = s.live.map Prod.fst

theorem ReachedMod.step {c : HeapCall} {s₁ : HeapClient} (h : ReachedMod heap s)
    (hroom : heap.Room) (hok : s.OkBytes c) (he : s.step c = some s₁) : ReachedMod heap s₁ := by
  obtain ⟨s', hr, hheap, hlive⟩ := h
  cases c with
  | alloc n =>
    have hok' : s'.Ok (.alloc (n % 2 ^ 58)) := by
      have hn : n * memBlockSize % 2 ^ 64 ≠ 0 := hok
      unfold memBlockSize at hn
      refine ⟨?_, ?_⟩
      · omega
      · unfold memBlockSize
        omega
    obtain ⟨s'', l, o, he', hinv, hheap'⟩ := hr.step hroom hok'
    refine ⟨s'', .inr ⟨hheap', l, o, hinv⟩, ?_⟩
    unfold HeapClient.step at he he'
    simp only at he he'
    rw [MemoryAllocator.kmem_alloc_mod, hheap] at he'
    obtain ⟨r, hr₁, rfl⟩ := Option.map_eq_some_iff.1 he
    rw [hr₁, Option.map_some, Option.some.injEq] at he'
    subst he'
    refine ⟨rfl, ?_⟩
    cases r.1 with
    | none => exact hlive
    | some a =>
      simp only [Option.elim, List.map_cons]
      rw [hlive]
  | free addr =>
    have hok' : s'.Ok (.free addr) := by
      obtain ⟨n, hn⟩ := hok
      have hm : addr ∈ s.live.map Prod.fst := List.mem_map.2 ⟨_, hn, rfl⟩
      rw [← hlive] at hm
      obtain ⟨x, hx, hxa⟩ := List.mem_map.1 hm
      exact ⟨x.2, hxa ▸ hx⟩
    obtain ⟨s'', l, o, he', hinv, hheap'⟩ := hr.step hroom hok'
    refine ⟨s'', .inr ⟨hheap', l, o, hinv⟩, ?_⟩
    unfold HeapClient.step at he he'
    simp only at he he'
    rw [hheap] at he'
    obtain ⟨r, hr₁, rfl⟩ := Option.map_eq_some_iff.1 he
    rw [hr₁, Option.map_some, Option.some.injEq] at he'
    subst he'
    refine ⟨rfl, ?_⟩
    have hfilter : ∀ L : List (Nat × Nat), (L.filter fun x => x.1 ≠ addr).map Prod.fst =
        (L.map Prod.fst).filter fun x => x ≠ addr := fun L => by
      rw [List.filter_map]
      rfl
    rw [hfilter, hfilter, hlive]

theorem ReachedMod.run {cs : List HeapCall} (hroom : heap.Room)
    (hrun : Run OkBytes HeapClient.step ⟨MemoryAllocator.reset heap, []⟩ cs s) :
    ReachedMod heap s :=
  hrun.inv (ReachedMod heap) (fun _ _ _ h hok he => h.step hroom hok he) ⟨_, .inl rfl, rfl, rfl⟩

/-! ## The result -/

/-- **Freeing undoes allocating, unless an empty block was split off.** After every run of requests
for at least one byte, and for every number of blocks, an allocation returns, and the free of its
block brings the free list back in order, iff the request is not one for no bytes (0 blocks, or a
product that wraps to 0) that splits the first free block. -/
theorem undoes_iff {cs : List HeapCall} (hroom : heap.Room)
    (hrun : Run OkBytes step ⟨MemoryAllocator.reset heap, []⟩ cs s) (size : Nat) :
    s.heap.Undoes size ↔ ¬ s.heap.SplitsHead size := by
  obtain ⟨s', hr, hheap, -⟩ := ReachedMod.run hroom hrun
  obtain ⟨-, l, o, h⟩ := hr.inv_start hroom
  rw [← hheap]
  exact ⟨fun hu hs => h.not_undoes hs hu, h.undoes⟩

/-- A block of 128 bytes is cut from what is left after two blocks, and comes back. -/
theorem undoes_onePage : ∃ s,
    Run OkBytes step ⟨MemoryAllocator.reset onePage, []⟩ [.alloc 1, .alloc 2, .free 0x88000018] s ∧
    s.heap.Undoes 2 := by
  obtain ⟨s, hrun⟩ : ∃ s, Run OkBytes step ⟨MemoryAllocator.reset onePage, []⟩
      [.alloc 1, .alloc 2, .free 0x88000018] s :=
    ⟨_, .cons (by decide : 1 * memBlockSize % 2 ^ 64 ≠ 0) rfl
      (.cons (by decide : 2 * memBlockSize % 2 ^ 64 ≠ 0) rfl (.cons ⟨1, by decide⟩ rfl .nil))⟩
  exact ⟨s, hrun, (undoes_iff onePage_room hrun 2).2 fun hs => absurd hs.1 (by decide)⟩

/-- After one block has come and gone, `kmem_alloc(0)` gives the address 0x88000018. Freeing it
leaves the list with its first block behind the second. -/
theorem undoes_fails_empty : ∃ s,
    Run OkBytes step ⟨MemoryAllocator.reset onePage, []⟩ [.alloc 1, .free 0x88000018] s ∧
    ¬ s.heap.Undoes 0 ∧ ∃ calls m r calls' m',
      s.heap.kmem_alloc 0 = some (some 0x88000018, calls, m) ∧
      m.kmem_free (some 0x88000018) = some (r, calls', m') ∧
      s.heap.FreeList [(0x88000000, 4072)] ∧ m'.FreeList [(0x88000018, 4048), (0x88000000, 0)] := by
  obtain ⟨s, hrun, hbefore, hstart, calls, m, r, calls', m', halloc, hfree, hafter⟩ : ∃ s,
      Run OkBytes step ⟨MemoryAllocator.reset onePage, []⟩ [.alloc 1, .free 0x88000018] s ∧
      s.heap.FreeList [(0x88000000, 4072)] ∧ s.heap.start = s.heap ∧
      ∃ calls m r calls' m', s.heap.kmem_alloc 0 = some (some 0x88000018, calls, m) ∧
      m.kmem_free (some 0x88000018) = some (r, calls', m') ∧
      m'.FreeList [(0x88000018, 4048), (0x88000000, 0)] := by
    refine ⟨_, .cons (by decide : 1 * memBlockSize % 2 ^ 64 ≠ 0) rfl (.cons ⟨1, by decide⟩ rfl
      .nil), ⟨⟨some 0x88000000, rfl, rfl, rfl, rfl⟩, ?_⟩, ?_, _, _, _, _, _, rfl, rfl,
      ⟨some 0x88000000, rfl, rfl, rfl, rfl, rfl, rfl⟩, ?_⟩
    · decide
    · exact MemoryAllocator.start_of_init (by decide)
    · decide
  refine ⟨s, hrun, fun ⟨p, calls₁, m₁, he₁, hundo⟩ => ?_, calls, m, r, calls', m', halloc, hfree,
    hbefore, hafter⟩
  obtain ⟨rfl, -, rfl⟩ : some 0x88000018 = p ∧ _ ∧ m = m₁ := by simpa using halloc.symm.trans he₁
  obtain ⟨F, r', calls₂, m₂, hF, -, hfree', hF'⟩ := hundo _ rfl
  obtain ⟨-, -, rfl⟩ : _ ∧ _ ∧ m' = m₂ := by simpa using hfree.symm.trans hfree'
  rw [hstart] at hF
  have h1 := DList.unique hF.1 hbefore.1
  rw [DList.unique hF'.1 hafter.1] at h1
  cases h1

end HeapClient

end SlabKernel
