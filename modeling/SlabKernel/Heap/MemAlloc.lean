import SlabKernel.Heap.Runs

/-!
# What `mem_alloc` gives

`mem_alloc` rounds a size up to units of `MEM_BLOCK_SIZE`, and `kmem_alloc` multiplies them back.
The product wraps to 0 for the sizes above 2^64 - 64: the first free block, whatever its size, is
then large enough. The runs here admit every request, so the free list may be out of order
(`Loose`, over `Pool`). `mem_alloc_iff`: the result holds what was asked, and nothing wraps, iff the
size is at most 2^64 - 64 or no block is free.
-/

namespace SlabKernel

open PtrList Tiles Runs

namespace MemoryAllocator

variable {m : MemoryAllocator} {l l₁ l₂ : List Tile} {F : List Nat} {n size : Nat}

/-- `mem_alloc` of `size` returns null, or the payload of a block of at least `size` bytes in the
heap. -/
def Enough (m : MemoryAllocator) (size : Nat) : Prop :=
  ∃ p calls m', m.mem_alloc size = some (p, calls, m') ∧ ∀ a, p = some a → ∃ curr,
    a = curr + sizeofBlockHeader ∧ size ≤ (m'.header curr).size ∧ m.heap.startAddr ≤ curr ∧
    a + (m'.header curr).size ≤ m.heap.endAddr

/-- The search of `kmem_alloc` for `n` units ends at `curr`. -/
def Finds (m : MemoryAllocator) (n curr : Nat) : Prop :=
  m.start.findLoop (n * memBlockSize % 2 ^ 64) addrSpace m.start.fmem_head = some (some curr)

/-- Every product and every difference on the way of `kmem_alloc` for `n` units is that of the
natural numbers: the size of the heap, the product, what is left of the block and of that without a
header, and the number of pages. -/
structure Exact (m : MemoryAllocator) (n : Nat) : Prop where
  heap : m.fmem_head = none → m.init = 0 → m.heap.startAddr + sizeofBlockHeader ≤ m.heap.endAddr
  product : m.start.fmem_head ≠ none → n * memBlockSize < 2 ^ 64
  remainder : ∀ curr, m.Finds n curr → n * memBlockSize % 2 ^ 64 ≤ (m.start.header curr).size
  rest : ∀ curr, m.Finds n curr →
    sub64 (m.start.header curr).size (n * memBlockSize % 2 ^ 64) > sizeofBlockHeader →
    sizeofBlockHeader ≤ sub64 (m.start.header curr).size (n * memBlockSize % 2 ^ 64)
  pages : ∀ curr, m.Finds n curr → pageBegin curr ≤ pageBegin (curr + sizeofBlockHeader +
    ((m.start.allot curr (n * memBlockSize % 2 ^ 64)).header curr).size)

theorem le_units (size : Nat) : size ≤ memAllocUnits size * memBlockSize := by
  unfold memAllocUnits memBlockSize
  split <;> omega

/-- The product wraps for the last 63 sizes. -/
theorem units_lt_iff (h : size < 2 ^ 64) :
    memAllocUnits size * memBlockSize < 2 ^ 64 ↔ size ≤ 2 ^ 64 - 64 := by
  unfold memAllocUnits memBlockSize
  split <;> omega

theorem units_wrap (h : size < 2 ^ 64) (hs : ¬ size ≤ 2 ^ 64 - 64) :
    memAllocUnits size * memBlockSize % 2 ^ 64 = 0 := by
  unfold memAllocUnits memBlockSize
  split <;> omega

theorem pageBegin_le {a b : Nat} (h : a ≤ b) : pageBegin a ≤ pageBegin b :=
  Nat.mul_le_mul_right _ (Nat.div_le_div_right h)

namespace Pool

/-- The block that `allot` gives away: all of it, if a header would not fit behind it. -/
theorem allot_block {b : Tile} {bytes : Nat} {F₁ F₂ : List Nat}
    (h : Pool m (l₁ ++ b :: l₂) (F₁ ++ b.addr :: F₂)) (hb : b.free = true)
    (hword : m.heap.endAddr < 2 ^ 64) (hle : bytes ≤ b.size) :
    bytes ≤ ((m.allot b.addr bytes).header b.addr).size ∧
    ((m.allot b.addr bytes).header b.addr).size ≤ bytes + sizeofBlockHeader ∧
    b.addr + sizeofBlockHeader + ((m.allot b.addr bytes).header b.addr).size ≤ m.heap.endAddr := by
  have h' := h.allot hb hword hle
  have hend : (m.allot b.addr bytes).heap.endAddr = m.heap.endAddr := by rw [(allot_heap _ _).1]
  unfold Tile.cut at h'
  split at h'
  · have hmem : (⟨b.addr, bytes, false⟩ : Tile) ∈
        l₁ ++ ([⟨b.addr, bytes, false⟩, ⟨b.addr + (sizeofBlockHeader + bytes),
          b.size - bytes - sizeofBlockHeader, true⟩] ++ l₂) := by simp
    rw [h'.size _ hmem]
    have hbounds := (h'.bounds hmem).2
    rw [hend] at hbounds
    exact ⟨Nat.le_refl _, Nat.le_add_right _ _, hbounds⟩
  · rename_i hrem
    have hmem : ({ b with free := false } : Tile) ∈ l₁ ++ ([{ b with free := false }] ++ l₂) := by
      simp
    rw [h'.size _ hmem]
    have hbounds := (h'.bounds hmem).2
    rw [hend] at hbounds
    exact ⟨hle, by simp only; omega, hbounds⟩

/-- `kmem_alloc` for a heap in use: no block, or the first one that is large enough. -/
theorem kmem_alloc_cases (h : Pool m.start l F) (hinit : m.start.init ≠ 0)
    (hword : m.start.heap.endAddr < 2 ^ 64) (n : Nat) :
    ((m.kmem_alloc n = some (none, [], m.start) ∧ ∀ curr, ¬ m.Finds n curr) ∧
      ∀ x ∈ F, (m.start.header x).size < n * memBlockSize % 2 ^ 64) ∨
    ∃ curr calls, m.kmem_alloc n = some (some (curr + sizeofBlockHeader), calls,
        m.start.allot curr (n * memBlockSize % 2 ^ 64)) ∧
      (∀ x, m.Finds n x ↔ x = curr) ∧ m.start.heap.startAddr ≤ curr ∧
      n * memBlockSize % 2 ^ 64 ≤ (m.start.header curr).size ∧
      (let size := ((m.start.allot curr (n * memBlockSize % 2 ^ 64)).header curr).size
       n * memBlockSize % 2 ^ 64 ≤ size ∧ size ≤ n * memBlockSize % 2 ^ 64 + sizeofBlockHeader ∧
        curr + sizeofBlockHeader + size ≤ m.start.heap.endAddr) := by
  rw [← HeapClient.kmem_alloc_start]
  have hlen := Nat.le_of_lt (h.length_le hword)
  cases h.kmem_alloc hinit hword n with
  | inl hnone =>
    obtain ⟨he, hall⟩ := hnone
    refine .inl ⟨⟨he, fun curr hf => ?_⟩, hall⟩
    cases findLoop_first (n * memBlockSize % 2 ^ 64) h.links.linked hlen with
    | inl h1 =>
      unfold Finds at hf
      rw [h1.1] at hf
      cases hf
    | inr h1 =>
      obtain ⟨F₁, x, F₂, hF, -, hle, -⟩ := h1
      exact absurd (hall x (by rw [hF]; simp)) (by omega)
  | inr hsome =>
    obtain ⟨l₁, b, l₂, F₁, F₂, m', rfl, hb, rfl, hle, -, hf, rfl, he, -, -, -⟩ := hsome
    refine .inr ⟨b.addr, _, he, fun x => ?_, (h.bounds (b := b) (by simp)).1, ?_,
      h.allot_block hb hword hle⟩
    · unfold Finds
      rw [hf]
      simp [eq_comm]
    · rw [h.size b (by simp)]
      exact hle

end Pool

end MemoryAllocator

namespace HeapClient

variable {s : HeapClient} {heap : HeapBounds} {l : List Tile} {F : List Nat}

/-! ## Runs -/

/-- Every request is admitted; only live addresses are freed. -/
def OkAny (s : HeapClient) : HeapCall → Prop
  | .alloc n => n < 2 ^ 64
  | .free addr => ∃ n, (addr, n) ∈ s.live

/-- The heap in use after requests of any size. -/
structure Loose (s : HeapClient) (l : List Tile) (F : List Nat) : Prop where
  pool : s.heap.Pool l F
  started : s.heap.init ≠ 0
  word : s.heap.heap.endAddr < 2 ^ 64
  live : ∀ x ∈ s.live, ∃ b ∈ lives l, payload b = x.1

theorem Loose.alloc {n : Nat} (h : Loose s l F) : ∃ r l' F', s.heap.kmem_alloc n = some r ∧
    r.2.2.heap = s.heap.heap ∧
    Loose ⟨r.2.2, r.1.elim s.live fun addr => (addr, n) :: s.live⟩ l' F' := by
  cases h.pool.kmem_alloc h.started h.word n with
  | inl hnone => exact ⟨_, l, F, hnone.1, rfl, h⟩
  | inr hsome =>
    obtain ⟨l₁, b, l₂, F₁, F₂, m', rfl, hb, rfl, hle, -, -, -, he, hheap, hinit, h'⟩ := hsome
    obtain ⟨size, hlives⟩ : ∃ size, lives (b.cut sizeofBlockHeader (n * memBlockSize % 2 ^ 64)) =
        [⟨b.addr, size, false⟩] := by
      unfold Tile.cut
      split
      · exact ⟨_, rfl⟩
      · exact ⟨b.size, rfl⟩
    refine ⟨_, _, _, he, hheap, h', hinit ▸ h.started, hheap ▸ h.word, fun x hx => ?_⟩
    rw [lives_append, lives_append, hlives]
    cases hx with
    | head => exact ⟨⟨b.addr, size, false⟩, by simp, rfl⟩
    | tail _ hx =>
      obtain ⟨c, hc, hcx⟩ := h.live x hx
      rw [lives_append, lives_cons_free hb] at hc
      refine ⟨c, ?_, hcx⟩
      simp only [List.mem_append] at hc ⊢
      tauto

theorem Loose.free {addr n : Nat} (h : Loose s l F) (ha : (addr, n) ∈ s.live) : ∃ r l' F',
    s.heap.kmem_free (some addr) = some r ∧ r.2.2.heap = s.heap.heap ∧
    Loose ⟨r.2.2, s.live.filter fun x => x.1 ≠ addr⟩ l' F' := by
  obtain ⟨b, hb, hpay⟩ := h.live _ ha
  obtain rfl : payload b = addr := hpay
  obtain ⟨hbl, hbf⟩ := mem_lives.1 hb
  obtain ⟨l₁, l₂, rfl⟩ := List.append_of_mem hbl
  obtain ⟨calls, m', l', F', he, hheap, hinit, h', hlives⟩ := h.pool.kmem_free hbf h.word
  refine ⟨_, l', F', he, hheap, h', hinit ▸ h.started, hheap ▸ h.word, fun x hx => ?_⟩
  obtain ⟨hxl, hne⟩ := List.mem_filter.1 hx
  obtain ⟨c, hc, hcx⟩ := h.live x hxl
  rw [lives_append, lives_cons_live hbf] at hc
  refine ⟨c, ?_, hcx⟩
  rw [hlives]
  simp only [List.mem_append, List.mem_cons] at hc ⊢
  have hcb : c ≠ b := fun he => by
    rw [he] at hcx
    simp [hcx] at hne
  tauto

/-- The state before the first call, or a heap in use. -/
def ReachedAny (heap : HeapBounds) (s : HeapClient) : Prop :=
  s = ⟨MemoryAllocator.reset heap, []⟩ ∨ s.heap.heap = heap ∧ ∃ l F, Loose s l F

/-- An allocation finds the heap in use. -/
theorem ReachedAny.start (h : ReachedAny heap s) (hroom : heap.Room) :
    s.heap.start.heap = heap ∧ ∃ l F, Loose ⟨s.heap.start, s.live⟩ l F := by
  cases h with
  | inl hreset =>
    have hinv := HeapClient.inv_start hroom
    rw [hreset]
    exact ⟨(MemoryAllocator.start_spec (m := .reset heap) rfl rfl hroom.room hroom.word).1, _, _,
      hinv.blocks.pool, hinv.started, hinv.word, fun x hx => nomatch hx⟩
  | inr huse =>
    obtain ⟨hheap, l, F, h⟩ := huse
    rw [MemoryAllocator.start_of_init h.started]
    exact ⟨hheap, l, F, h⟩

theorem ReachedAny.step {c : HeapCall} {s₁ : HeapClient} (h : ReachedAny heap s)
    (hroom : heap.Room) (hok : s.OkAny c) (he : s.step c = some s₁) : ReachedAny heap s₁ := by
  cases c with
  | alloc n =>
    obtain ⟨hheap, l, F, hl⟩ := h.start hroom
    obtain ⟨r, l', F', hr, hheap', h'⟩ := hl.alloc (n := n)
    rw [kmem_alloc_start] at hr
    unfold HeapClient.step at he
    simp only [hr, Option.map_some, Option.some.injEq] at he
    exact .inr ⟨he ▸ hheap'.trans hheap, l', F', he ▸ h'⟩
  | free addr =>
    obtain ⟨n, ha⟩ := hok
    cases h with
    | inl hreset =>
      rw [hreset] at ha
      cases ha
    | inr huse =>
      obtain ⟨hheap, l, F, hl⟩ := huse
      obtain ⟨r, l', F', hr, hheap', h'⟩ := hl.free ha
      unfold HeapClient.step at he
      simp only [hr, Option.map_some, Option.some.injEq] at he
      exact .inr ⟨he ▸ hheap'.trans hheap, l', F', he ▸ h'⟩

theorem ReachedAny.run {cs : List HeapCall} (hroom : heap.Room)
    (hrun : Run OkAny HeapClient.step ⟨MemoryAllocator.reset heap, []⟩ cs s) : ReachedAny heap s :=
  hrun.inv (ReachedAny heap) (fun _ _ _ h hok he => h.step hroom hok he) (.inl rfl)

/-! ## The result -/

variable {m : MemoryAllocator} {size n : Nat} {live : List (Nat × Nat)}

theorem start_heap (m : MemoryAllocator) : m.start.heap = m.heap := by
  unfold MemoryAllocator.start
  split <;> rfl

/-- Nothing wraps but the product. -/
theorem Loose.exact_iff (h : Loose ⟨m.start, live⟩ l F) (hroom : m.heap.Room) :
    m.Exact n ↔ (m.start.fmem_head ≠ none → n * memBlockSize < 2 ^ 64) := by
  refine ⟨fun he => he.product, fun hp => ?_⟩
  have hheap : m.heap.startAddr + sizeofBlockHeader ≤ m.heap.endAddr := Nat.le_of_lt hroom.room
  cases h.pool.kmem_alloc_cases h.started h.word n with
  | inl hnone =>
    have hno := hnone.1.2
    exact ⟨fun _ _ => hheap, hp, fun curr hf => absurd hf (hno curr),
      fun curr hf => absurd hf (hno curr), fun curr hf => absurd hf (hno curr)⟩
  | inr hsome =>
    obtain ⟨b, calls, -, hfind, -, hle, -⟩ := hsome
    refine ⟨fun _ _ => hheap, hp, fun curr hf => ?_, fun curr _ hlt => Nat.le_of_lt hlt,
      fun curr _ => MemoryAllocator.pageBegin_le ?_⟩
    · rw [(hfind curr).1 hf]
      exact hle
    · exact Nat.le_trans (Nat.le_add_right _ _) (Nat.le_add_right _ _)

/-- With no free block nothing is given. -/
theorem kmem_alloc_none (hm : m.start.fmem_head = none) (n : Nat) :
    m.kmem_alloc n = some (none, [], m.start) := by
  unfold MemoryAllocator.kmem_alloc
  simp only [hm]
  rfl

theorem Loose.enough_iff (h : Loose ⟨m.start, live⟩ l F) (hsize : size < 2 ^ 64) :
    m.Enough size ↔ size ≤ 2 ^ 64 - 64 ∨ m.start.fmem_head = none := by
  have hspec := h.pool.kmem_alloc_cases h.started h.word (MemoryAllocator.memAllocUnits size)
  simp only [start_heap] at hspec
  by_cases hs : size ≤ 2 ^ 64 - 64
  · have hlt := (MemoryAllocator.units_lt_iff hsize).2 hs
    refine ⟨fun _ => .inl hs, fun _ => ?_⟩
    rw [Nat.mod_eq_of_lt hlt] at hspec
    cases hspec with
    | inl hnone => exact ⟨none, [], _, hnone.1.1, fun a ha => nomatch ha⟩
    | inr hsome =>
      obtain ⟨curr, calls, he, -, hlo, -, hle, -, hhi⟩ := hsome
      refine ⟨_, calls, _, he, fun a ha => ⟨curr, (Option.some.inj ha).symm, ?_, hlo, ?_⟩⟩
      · exact Nat.le_trans (MemoryAllocator.le_units size) hle
      · rw [← Option.some.inj ha]
        exact hhi
  · rw [or_iff_right hs]
    constructor
    · intro ⟨p, calls, m', he, henough⟩
      rw [MemoryAllocator.units_wrap hsize hs] at hspec
      cases hspec with
      | inl hnone =>
        -- every free block is large enough for 0 bytes
        have hl := h.pool.links.linked
        cases F with
        | nil => exact hl
        | cons x F => exact absurd (hnone.2 x (.head _)) (Nat.not_lt_zero _)
      | inr hsome =>
        obtain ⟨curr, calls', he', -, -, -, -, hsmall, -⟩ := hsome
        have heq := he.symm.trans he'
        simp only [Option.some.injEq, Prod.mk.injEq] at heq
        obtain ⟨rfl, -, rfl⟩ := heq
        obtain ⟨c, hc, hle, -⟩ := henough _ rfl
        obtain rfl : curr = c := by omega
        unfold sizeofBlockHeader at hsmall
        omega
    · intro hm
      exact ⟨none, [], _, kmem_alloc_none hm _, fun a ha => nomatch ha⟩

/-- **`mem_alloc` gives what was asked up to 2^64 - 64 bytes.** In every state that calls with any
sizes lead to, and for every 64-bit size: `mem_alloc` returns null or the payload of a block of at
least that size in the heap, iff the size is at most 2^64 - 64 or no block is free; and no product
or difference on the way wraps iff the same holds. -/
theorem mem_alloc_iff {cs : List HeapCall} (hroom : heap.Room)
    (hrun : Run OkAny step ⟨MemoryAllocator.reset heap, []⟩ cs s) (hsize : size < 2 ^ 64) :
    (s.heap.Enough size ↔ size ≤ 2 ^ 64 - 64 ∨ s.heap.start.fmem_head = none) ∧
    (s.heap.Exact (MemoryAllocator.memAllocUnits size) ↔
      size ≤ 2 ^ 64 - 64 ∨ s.heap.start.fmem_head = none) := by
  obtain ⟨hheap, l, F, h⟩ := (ReachedAny.run hroom hrun).start hroom
  simp only [start_heap] at hheap
  refine ⟨h.enough_iff hsize, ?_⟩
  rw [h.exact_iff (hheap ▸ hroom), MemoryAllocator.units_lt_iff hsize, or_comm,
    ← or_iff_not_imp_left]

/-- A request of no bytes, its free and a request of 100 bytes: the list is out of order. -/
theorem mem_alloc_onePage : ∃ s, Run OkAny step ⟨MemoryAllocator.reset onePage, []⟩
    [.alloc 0, .free 0x88000018, .alloc 2] s ∧ s.heap.Enough 100 ∧
    s.heap.Exact (MemoryAllocator.memAllocUnits 100) := by
  obtain ⟨s, hrun⟩ : ∃ s, Run OkAny step ⟨MemoryAllocator.reset onePage, []⟩
      [.alloc 0, .free 0x88000018, .alloc 2] s :=
    ⟨_, .cons (by decide : 0 < 2 ^ 64) rfl (.cons ⟨0, by decide⟩ rfl
      (.cons (by decide : 2 < 2 ^ 64) rfl .nil))⟩
  obtain ⟨h1, h2⟩ := mem_alloc_iff onePage_room hrun (show 100 < 2 ^ 64 by decide)
  exact ⟨s, hrun, h1.2 (.inl (by decide)), h2.2 (.inl (by decide))⟩

/-- `mem_alloc(2^64 - 1)` on an unused heap of one page gives the address 0x88000018 of a block of
no bytes. -/
theorem mem_alloc_wraps : ∃ calls m', (MemoryAllocator.reset onePage).mem_alloc (2 ^ 64 - 1) =
      some (some 0x88000018, calls, m') ∧ (m'.header 0x88000000).size = 0 ∧
    ¬ (MemoryAllocator.reset onePage).Enough (2 ^ 64 - 1) ∧
    ¬ (MemoryAllocator.reset onePage).Exact (MemoryAllocator.memAllocUnits (2 ^ 64 - 1)) := by
  obtain ⟨calls, m', he, hsize⟩ : ∃ calls m',
      (MemoryAllocator.reset onePage).mem_alloc (2 ^ 64 - 1) = some (some 0x88000018, calls, m') ∧
      (m'.header 0x88000000).size = 0 := ⟨_, _, rfl, by decide⟩
  refine ⟨calls, m', he, hsize, fun ⟨p, calls₁, m₁, he₁, henough⟩ => ?_, fun hexact => ?_⟩
  · have heq := he.symm.trans he₁
    simp only [Option.some.injEq, Prod.mk.injEq] at heq
    obtain ⟨rfl, -, rfl⟩ := heq
    obtain ⟨curr, hcurr, hle, -⟩ := henough _ rfl
    obtain rfl : 0x88000000 = curr := by
      unfold sizeofBlockHeader at hcurr
      omega
    rw [hsize] at hle
    exact absurd hle (by decide)
  · exact absurd (hexact.product (by decide)) (by decide)

end HeapClient

end SlabKernel
