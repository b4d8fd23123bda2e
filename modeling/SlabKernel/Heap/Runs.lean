import SlabKernel.Heap.Refine
import SlabKernel.Lib.Run

/-!
# Runs of the heap

`HeapClient` is the heap with its live blocks, each with the number of units asked for. `Inv s l`:
the blocks `l` tile the heap without adjacent free ones, and the live ones are the client's. Every
admitted call returns and keeps it (`Inv.alloc`, `Inv.free`), so every run from the unused heap does
(`Inv.run`, `first_fit_invariant`).
-/

namespace SlabKernel

open PtrList Tiles Runs

/-- The heap and the payloads that are live, each with the units it was asked for. -/
structure HeapClient where
  heap : MemoryAllocator
  live : List (Nat × Nat)

/-- The calls of a client. -/
inductive HeapCall
  | alloc (size : Nat)
  | free (addr : Nat)

/-- The heap before the first call. -/
def MemoryAllocator.reset (heap : HeapBounds) : MemoryAllocator where
  heap
  header _ := ⟨none, none, 0⟩
  fmem_head := none
  init := 0

/-- The heap has room for a header, and its addresses are not null and fit a word. -/
structure HeapBounds.Room (heap : HeapBounds) : Prop where
  nonnull : 0 < heap.startAddr
  room : heap.startAddr + sizeofBlockHeader < heap.endAddr
  word : heap.endAddr < 2 ^ 64

namespace HeapClient

/-- One call; a failed allocation gives nothing to the client. -/
def step (s : HeapClient) : HeapCall → Option HeapClient
  | .alloc n => (s.heap.kmem_alloc n).map fun r =>
    ⟨r.2.2, r.1.elim s.live fun addr => (addr, n) :: s.live⟩
  | .free addr => (s.heap.kmem_free (some addr)).map fun r =>
    ⟨r.2.2, s.live.filter fun x => x.1 ≠ addr⟩

/-- Requests are for at least one unit and do not overflow; only live addresses are freed. -/
def Ok (s : HeapClient) : HeapCall → Prop
  | .alloc n => 1 ≤ n ∧ n * memBlockSize < 2 ^ 64
  | .free addr => ∃ n, (addr, n) ∈ s.live

/-- The payload of a block. -/
abbrev payload (b : Tile) : Nat := b.addr + sizeofBlockHeader

/-- The heap in use: its blocks `l`, and the live ones `o`, each with the units it was asked for. -/
structure Inv (s : HeapClient) (l : List Tile) (o : List (Tile × Nat)) : Prop where
  blocks : s.heap.Blocks l
  coalesced : Coalesced l
  started : s.heap.init ≠ 0
  word : s.heap.heap.endAddr < 2 ^ 64
  owned : (o.map Prod.fst).Perm (lives l)
  live : s.live = o.map fun x => (payload x.1, x.2)
  enough : ∀ x ∈ o, 1 ≤ x.2 ∧ x.2 * memBlockSize ≤ x.1.size

variable {s s' : HeapClient} {l l₁ l₂ : List Tile} {o : List (Tile × Nat)} {b : Tile} {addr n : Nat}

theorem Inv.word_size (h : Inv s l o) {x : Tile × Nat} (hx : x ∈ o) : 0 < x.1.size := by
  have := h.enough x hx
  unfold memBlockSize at this
  omega

/-- A live payload is that of one live block. -/
theorem Inv.find (h : Inv s l o) (ha : (addr, n) ∈ s.live) :
    ∃ b ∈ lives l, payload b = addr ∧ (b, n) ∈ o := by
  rw [h.live] at ha
  obtain ⟨⟨b, k⟩, hx, he⟩ := List.mem_map.1 ha
  obtain ⟨rfl, rfl⟩ := Prod.mk.inj he
  exact ⟨b, h.owned.mem_iff.1 (List.mem_map.2 ⟨_, hx, rfl⟩), rfl, hx⟩

/-- The first block that is large enough is given away, and its pages are mapped. -/
theorem Inv.kmem_alloc (h : Inv s l o) (hn : 1 ≤ n) (hn' : n * memBlockSize < 2 ^ 64) :
    ∃ p calls m' l' o', s.heap.kmem_alloc n = some (p, calls, m') ∧ m'.heap = s.heap.heap ∧
      Inv ⟨m', p.elim s.live fun addr => (addr, n) :: s.live⟩ l' o' ∧
      (p = none ∧ calls = [] ∧ lives l' = lives l ∨ ∃ b ∈ lives l', p = some (payload b) ∧
        calls = m'.mapBlock b.addr ∧ ∀ c ∈ lives l', c = b ∨ c ∈ lives l) := by
  rcases h.blocks.kmem_alloc h.started h.word hn' with
    ⟨he, -⟩ | ⟨l₁, b, l₂, m', rfl, hb, hle, -, he, hheap, hinit, hblocks⟩
  · exact ⟨_, _, _, l, o, he, rfl, h, .inl ⟨rfl, rfl, rfl⟩⟩
  · obtain ⟨size, hsize, hlives⟩ : ∃ size, n * memBlockSize ≤ size ∧
        lives (b.cut sizeofBlockHeader (n * memBlockSize)) = [⟨b.addr, size, false⟩] := by
      unfold Tile.cut
      split
      · exact ⟨_, Nat.le_refl _, rfl⟩
      · exact ⟨b.size, hle, rfl⟩
    have howned := h.owned
    rw [lives_append, lives_cons_free hb] at howned
    refine ⟨_, _, m', l₁ ++ (b.cut sizeofBlockHeader (n * memBlockSize) ++ l₂),
      (⟨b.addr, size, false⟩, n) :: o, he, hheap, ?_,
      .inr ⟨⟨b.addr, size, false⟩, ?_, rfl, rfl, ?_⟩⟩
    · refine ⟨hblocks, h.coalesced.cut hb, hinit ▸ h.started, hheap ▸ h.word, ?_, ?_,
        fun x hx => ?_⟩
      · rw [lives_append, lives_append, hlives]
        exact (howned.cons _).trans List.perm_middle.symm
      · simp only [h.live, Option.elim, List.map_cons]
      · rcases List.mem_cons.1 hx with rfl | hx
        · exact ⟨hn, hsize⟩
        · exact h.enough x hx
    · rw [lives_append, lives_append, hlives]
      simp
    · intro c hc
      rw [lives_append, lives_append, hlives] at hc
      rw [lives_append, lives_cons_free hb]
      simp only [List.singleton_append, List.mem_append, List.mem_cons] at hc ⊢
      tauto

/-- A live block is given back; only pages in free blocks are unmapped. -/
theorem Inv.kmem_free (h : Inv s l o) (ha : (addr, n) ∈ s.live) :
    ∃ calls m' l' o', s.heap.kmem_free (some addr) = some (0, calls, m') ∧
      m'.heap = s.heap.heap ∧ Inv ⟨m', s.live.filter fun x => x.1 ≠ addr⟩ l' o' ∧
      (∀ c ∈ lives l', c ∈ lives l) ∧ ∀ call ∈ calls, ∃ t : Tile, ∃ u ∈ l', u.free = true ∧
        u.addr ≤ t.addr ∧ t.stop sizeofBlockHeader ≤ u.stop sizeofBlockHeader ∧
        call ∈ MemoryAllocator.unmapCalls t.addr t.size := by
  obtain ⟨b, hb, rfl, hx⟩ := h.find ha
  obtain ⟨hbl, hbf⟩ := mem_lives.1 hb
  obtain ⟨l₁, l₂, rfl⟩ := List.append_of_mem hbl
  obtain ⟨calls, m', l', he, hheap, hinit, hblocks, hco, hlives, hcalls⟩ :=
    h.blocks.kmem_free hbf (h.blocks.above (h.word_size hx)) h.coalesced h.word
  refine ⟨calls, m', l', o.filter fun x => payload x.1 ≠ payload b, he, hheap, ?_, ?_, hcalls⟩
  · refine ⟨hblocks, hco, hinit ▸ h.started, hheap ▸ h.word, ?_, ?_, fun x hx => ?_⟩
    · have hp := h.owned.filter fun c => payload c ≠ payload b
      rw [List.filter_map] at hp
      obtain ⟨h1, h2⟩ := h.blocks.around
      have hne₁ : ∀ c ∈ lives l₁, payload c ≠ payload b := fun c hc => by
        have := h1 c (mem_lives.1 hc).1
        unfold payload sizeofBlockHeader
        omega
      have hne₂ : ∀ c ∈ lives l₂, payload c ≠ payload b := fun c hc => by
        have := h2 c (mem_lives.1 hc).1
        unfold payload sizeofBlockHeader
        omega
      have hlater : (lives (l₁ ++ b :: l₂)).filter (fun c => payload c ≠ payload b) =
          lives l₁ ++ lives l₂ := by
        rw [lives_append, lives_cons_live hbf, List.filter_append,
          List.filter_cons_of_neg (by simp), List.filter_eq_self.2 (by simpa using hne₁)]
        congr 1
        exact List.filter_eq_self.2 (by simpa using hne₂)
      rw [hlives, ← hlater]
      exact hp
    · rw [h.live, List.filter_map]
      rfl
    · exact h.enough x (List.mem_filter.1 hx).1
  · intro c hc
    rw [hlives] at hc
    rw [lives_append, lives_cons_live hbf]
    simp only [List.mem_append, List.mem_cons] at hc ⊢
    tauto

/-- The first allocation finds the whole heap free. -/
theorem inv_start {heap : HeapBounds} (hroom : heap.Room) :
    Inv ⟨(MemoryAllocator.reset heap).start, []⟩
      [⟨heap.startAddr, heap.endAddr - heap.startAddr - sizeofBlockHeader, true⟩] [] := by
  obtain ⟨hheap, hinit, hblocks⟩ := MemoryAllocator.start_spec (m := .reset heap) rfl rfl hroom.room
    hroom.word
  refine ⟨hblocks, List.isChain_singleton _, by rw [hinit]; decide, by rw [hheap]; exact hroom.word,
    .refl _, rfl, fun x hx => absurd hx List.not_mem_nil⟩

theorem start_start (m : MemoryAllocator) : m.start.start = m.start := by
  by_cases hc : m.fmem_head = none ∧ m.init = 0
  · apply MemoryAllocator.start_of_init
    unfold MemoryAllocator.start
    rw [if_pos hc]
    exact Int.one_ne_zero
  · have hm : m.start = m := if_neg hc
    rw [hm, hm]

/-- The initialisation is part of the first allocation. -/
theorem kmem_alloc_start (m : MemoryAllocator) : m.start.kmem_alloc n = m.kmem_alloc n := by
  unfold MemoryAllocator.kmem_alloc
  rw [start_start]

/-- The state before the first call, or a heap in use. -/
def Reached (heap : HeapBounds) (s : HeapClient) : Prop :=
  s = ⟨MemoryAllocator.reset heap, []⟩ ∨ s.heap.heap = heap ∧ ∃ l o, Inv s l o

/-- An allocation finds the heap in use. -/
theorem Reached.inv_start {heap : HeapBounds} (h : Reached heap s) (hroom : heap.Room) :
    s.heap.start.heap = heap ∧ ∃ l o, Inv ⟨s.heap.start, s.live⟩ l o := by
  rcases h with rfl | ⟨hheap, l, o, h⟩
  · have hinv := HeapClient.inv_start hroom
    exact ⟨(MemoryAllocator.start_spec (m := .reset heap) rfl rfl hroom.room hroom.word).1, _, _,
      hinv⟩
  · rw [MemoryAllocator.start_of_init h.started]
    exact ⟨hheap, l, o, h⟩

/-- Every admitted call returns, and then the heap is in use. -/
theorem Reached.step {heap : HeapBounds} {c : HeapCall} (h : Reached heap s) (hroom : heap.Room)
    (hok : s.Ok c) : ∃ s' l o, s.step c = some s' ∧ Inv s' l o ∧ s'.heap.heap = heap := by
  cases c with
  | alloc n =>
    obtain ⟨hheap, l, o, hinv⟩ := h.inv_start hroom
    obtain ⟨p, calls, m', l', o', he, hheap', hinv', -⟩ := hinv.kmem_alloc hok.1 hok.2
    rw [kmem_alloc_start] at he
    exact ⟨_, l', o', by simp only [HeapClient.step, he, Option.map_some], hinv',
      hheap'.trans hheap⟩
  | free addr =>
    obtain ⟨n, ha⟩ := hok
    rcases h with rfl | ⟨hheap, l, o, hinv⟩
    · cases ha
    · obtain ⟨calls, m', l', o', he, hheap', hinv', -⟩ := hinv.kmem_free ha
      exact ⟨_, l', o', by simp only [HeapClient.step, he, Option.map_some], hinv',
        hheap'.trans hheap⟩

theorem Reached.run {heap : HeapBounds} {cs : List HeapCall} (hroom : heap.Room)
    (hrun : Run Ok HeapClient.step ⟨MemoryAllocator.reset heap, []⟩ cs s) : Reached heap s := by
  refine hrun.inv (Reached heap) (fun s c s' h hok he => ?_) (.inl rfl)
  obtain ⟨s'', l, o, he', hinv, hheap⟩ := h.step hroom hok
  obtain rfl := Option.some.inj (he.symm.trans he')
  exact .inr ⟨hheap, l, o, hinv⟩

/-- After the first call the heap is in use. -/
theorem inv_of_run {heap : HeapBounds} {cs : List HeapCall} (hroom : heap.Room) (hne : cs ≠ [])
    (hrun : Run Ok step ⟨MemoryAllocator.reset heap, []⟩ cs s) :
    s.heap.heap = heap ∧ ∃ l o, Inv s l o := by
  have hall : ∀ s₀ s, Reached heap s₀ → ∀ cs, Run Ok step s₀ cs s → cs ≠ [] →
      s.heap.heap = heap ∧ ∃ l o, Inv s l o := by
    intro s₀ s h₀ cs hrun hne
    cases hrun with
    | nil => exact absurd rfl hne
    | cons hok he hrest =>
      obtain ⟨s₁, l, o, he', hinv, hheap⟩ := h₀.step hroom hok
      obtain rfl := Option.some.inj (he.symm.trans he')
      refine hrest.inv (fun s => s.heap.heap = heap ∧ ∃ l o, Inv s l o) (fun s c s' h hok he => ?_)
        ⟨hheap, l, o, hinv⟩
      obtain ⟨s'', l, o, he', hinv, hheap⟩ := Reached.step (.inr h) hroom hok
      obtain rfl := Option.some.inj (he.symm.trans he')
      exact ⟨hheap, l, o, hinv⟩
  exact hall _ s (.inl rfl) cs hrun hne

/-! ## The result -/

/-- **First fit keeps the heap tiled.** After the first allocation of a run, whatever was allocated
and freed: blocks, each a header and its recorded size, tile the heap exactly, so they are pairwise
disjoint; no two free blocks are adjacent; the free list links the free blocks both ways in strictly
increasing order; the live blocks are those of the client's payloads and hold what was asked for;
with nothing live one free block spans the heap. The check after a split never fires, in no call of
the run. Every admitted call returns. -/
theorem first_fit_invariant {heap : HeapBounds} {cs : List HeapCall} (hroom : heap.Room)
    (hrun : Run Ok step ⟨MemoryAllocator.reset heap, []⟩ cs s) :
    (cs ≠ [] → ∃ l, Tiling sizeofBlockHeader heap.startAddr l heap.endAddr ∧
      (∀ b ∈ l, (s.heap.header b.addr).size = b.size) ∧
      l.Pairwise (fun a b => a.addr + sizeofBlockHeader + a.size ≤ b.addr) ∧
      Coalesced l ∧
      DList (fun a => (s.heap.header a).next) (fun a => (s.heap.header a).prev) s.heap.fmem_head
        (frees l) ∧
      (frees l).Pairwise (· < ·) ∧
      (∃ o : List (Tile × Nat), (o.map Prod.fst).Perm (lives l) ∧
        s.live = o.map (fun x => (payload x.1, x.2)) ∧
        ∀ x ∈ o, x.2 * memBlockSize ≤ x.1.size) ∧
      (s.live = [] →
        l = [⟨heap.startAddr, heap.endAddr - heap.startAddr - sizeofBlockHeader, true⟩])) ∧
    (∀ n curr, 1 ≤ n → n * memBlockSize < 2 ^ 64 →
      s.heap.start.findLoop (n * memBlockSize) addrSpace s.heap.start.fmem_head =
        some (some curr) →
      sizeofBlockHeader < sub64 (s.heap.start.header curr).size (n * memBlockSize) →
      ¬ (s.heap.start.splitBlock curr (n * memBlockSize)
          (sub64 (s.heap.start.header curr).size (n * memBlockSize))).leavesHeap
        (curr + (sizeofBlockHeader + n * memBlockSize))) ∧
    ∀ c, s.Ok c → ∃ s', s.step c = some s' := by
  have hreach := Reached.run hroom hrun
  refine ⟨fun hne => ?_, fun n curr hn hn' hfind hrem => ?_, fun c hok => ?_⟩
  · obtain ⟨hheap, l, o, h⟩ := inv_of_run hroom hne hrun
    have ht := h.blocks.tiling
    rw [hheap] at ht
    refine ⟨l, ht, h.blocks.size, ht.apart, h.coalesced, h.blocks.links,
      ht.frees_sorted (by decide), ⟨o, h.owned, h.live, fun x hx => (h.enough x hx).2⟩,
      fun hlive => ?_⟩
    have ho : o = [] := by
      have := h.live
      rw [hlive] at this
      exact List.map_eq_nil_iff.1 this.symm
    have hl : lives l = [] := by
      have := h.owned
      rw [ho] at this
      exact List.nil_perm.1 this
    exact h.coalesced.single ht (by have := hroom.room; omega) hl
  · obtain ⟨hheap, l, o, h⟩ := hreach.inv_start hroom
    have hlen : l.length ≤ addrSpace := by
      have := h.blocks.length_le
      have := h.word
      unfold addrSpace
      omega
    rcases MemoryAllocator.findLoop_spec (n * memBlockSize) h.blocks.links.linked
      h.blocks.size hlen with ⟨he, -⟩ | ⟨l₁, b, l₂, rfl, hb, hle, he⟩
    · rw [hfind] at he
      cases he
    · rw [hfind] at he
      obtain rfl := Option.some.inj (Option.some.inj he)
      have hsz := h.blocks.size b (by simp)
      simp only at hsz
      rw [hsz] at hrem ⊢
      exact h.blocks.fits hb h.word hle hrem
  · obtain ⟨s', -, -, he, -⟩ := hreach.step hroom hok
    exact ⟨s', he⟩

/-- A heap of one page. -/
def onePage : HeapBounds := ⟨0x88000000, 0x88001000⟩

theorem onePage_room : onePage.Room := ⟨by decide, by decide, by decide⟩

/-- Two blocks are allocated and the first one is freed: the client holds the other one, and the
free blocks before and behind it are not joined. -/
theorem first_fit_invariant_onePage : ∃ s,
    Run Ok step ⟨MemoryAllocator.reset onePage, []⟩ [.alloc 1, .alloc 2, .free 0x88000018] s ∧
    s.live = [(0x88000070, 2)] ∧ ∃ l, Tiling sizeofBlockHeader 0x88000000 l 0x88001000 ∧
      Coalesced l ∧ ∃ o : List (Tile × Nat), (o.map Prod.fst).Perm (lives l) ∧
        s.live = o.map fun x => (payload x.1, x.2) := by
  obtain ⟨s, hrun, hlive⟩ : ∃ s, Run Ok step ⟨MemoryAllocator.reset onePage, []⟩
      [.alloc 1, .alloc 2, .free 0x88000018] s ∧ s.live = [(0x88000070, 2)] := by
    refine ⟨_, .cons ⟨by decide, by decide⟩ rfl (.cons ⟨by decide, by decide⟩ rfl
      (.cons ⟨1, by decide⟩ rfl .nil)), ?_⟩
    decide
  obtain ⟨l, ht, -, -, hco, -, -, ⟨o, hperm, ho, -⟩, -⟩ :=
    (first_fit_invariant onePage_room hrun).1 (List.cons_ne_nil _ _)
  exact ⟨s, hrun, hlive, l, ht, hco, o, hperm, ho⟩

end HeapClient

end SlabKernel
