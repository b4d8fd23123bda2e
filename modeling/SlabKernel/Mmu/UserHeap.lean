import SlabKernel.Buddy.Geometry
import SlabKernel.Heap.Runs
import SlabKernel.Mmu.Faults
import SlabKernel.Mmu.FlatMap

/-!
# The pages of the first-fit heap

`kmem_alloc` maps every page that its block touches, `kmem_free` unmaps the pages that lie in a free
block as a whole. `UserHeap` is the heap with the page table; a call of the heap changes the page
table page by page (`PageOp`), and between any two pages the kernel may fault on a page that is not
mapped. Whatever the run, the pages of the live blocks are mapped for user code
(`live_memory_mapped`): a page that is unmapped holds no byte of a live block (`unmapCalls_ops`), and
a fault is at no page of one.
-/

namespace SlabKernel

open EntryBits Runs Tiles HeapClient

/-- What a call of the page table does to one page. -/
inductive PageOp
  | map (vaddr : Nat)
  | invalid (vaddr : Nat)
  deriving DecidableEq

/-- The pages of a call, in order. -/
def MmuCall.ops : MmuCall → List PageOp
  | .map vaddr => [.map vaddr]
  | .punmap start end_ =>
    (List.range (sub64 (pageOf end_) (pageOf start) / pageSize + 1)).map fun i =>
      .invalid ((pageOf start + i * pageSize) % 2 ^ 64)

namespace MMU

variable {s s' : MMU} {extra : List (Nat × Nat)}

/-- One page of a call is executed. -/
def pageOp (s : MMU) : PageOp → Option MMU
  | .map vaddr => s.map vaddr UserReadWriteExecute
  | .invalid vaddr => s.invalid vaddr .PAGE_UNMAP

/-- A call is executed. -/
def mmuCall (s : MMU) : MmuCall → Option MMU
  | .map vaddr => s.map vaddr UserReadWriteExecute
  | .punmap start end_ => s.punmap start end_

theorem punmapLoop_eq (n start : Nat) (s : MMU) (hs : start < 2 ^ 64) : punmapLoop n start s =
    ((List.range n).map fun i => PageOp.invalid ((start + i * pageSize) % 2 ^ 64)).foldlM pageOp s := by
  induction n generalizing start s with
  | zero => rfl
  | succ n ih =>
    have hzero : (start + 0 * pageSize) % 2 ^ 64 = start := by
      rw [Nat.zero_mul, Nat.add_zero, Nat.mod_eq_of_lt hs]
    have hnext : ∀ i, ((start + pageSize) % 2 ^ 64 + i * pageSize) % 2 ^ 64 =
        (start + (i + 1) * pageSize) % 2 ^ 64 := fun i => by
      rw [Nat.mod_add_mod, Nat.add_assoc, Nat.add_mul, Nat.one_mul, Nat.add_comm pageSize]
    rw [List.range_succ_eq_map, List.map_cons, List.map_map, List.foldlM_cons, hzero]
    unfold punmapLoop
    refine Option.bind_congr fun s₁ _ => ?_
    rw [ih _ _ (Nat.mod_lt _ (by decide))]
    simp only [hnext]
    rfl

/-- Without faults, the pages of a call make the call. -/
theorem mmuCall_eq (s : MMU) (call : MmuCall)
    (h : ∀ start end_, call = .punmap start end_ → start ≤ end_ ∧ end_ < 2 ^ 39) :
    s.mmuCall call = call.ops.foldlM pageOp s := by
  cases call with
  | map vaddr =>
    unfold MmuCall.ops
    rw [List.foldlM_cons]
    exact (Option.bind_fun_some _).symm
  | punmap start end_ =>
    obtain ⟨hle, hlt⟩ := h start end_ rfl
    obtain ⟨hnum, hdiv, hend⟩ := pageNum_eq hle hlt
    have hshort : ¬ end_ / pageSize - start / pageSize ≥ 2 ^ 32 - 1 :=
      Nat.not_le_of_lt ((Nat.sub_le _ _).trans_lt (hend.trans (by decide)))
    have hword : pageOf start < 2 ^ 64 :=
      (Nat.div_mul_le_self _ _).trans_lt (hle.trans_lt (hlt.trans (by decide)))
    unfold mmuCall punmap MmuCall.ops
    simp only [hnum]
    rw [if_neg hshort, punmapLoop_eq _ _ _ hword]

/-! ## Faults of the kernel -/

end MMU

/-- A page fault of the kernel. -/
def Trap.Kernel (f : Trap) : Prop := f.spp = true ∧ (f.cause = 12 ∨ f.cause = 13 ∨ f.cause = 15)

instance (f : Trap) : Decidable f.Kernel := inferInstanceAs (Decidable (_ ∧ _))

/-- The address of a page fault. -/
def Trap.vaddr (f : Trap) : Nat := if f.cause = 12 then f.sepc else f.stval

/-- The handler maps the page for the kernel. -/
theorem MMU.fault_kernel {s : MMU} {f : Trap} (hf : f.Kernel) :
    s.fault f = s.map f.vaddr ReadWriteExecute := by
  obtain ⟨hspp, hcause⟩ := hf
  unfold fault trapHandler Trap.vaddr
  by_cases h12 : f.cause = 12
  · simp only [if_pos h12, hspp, if_true, Option.map_map]
    exact Option.map_id'
  · simp only [if_neg h12, if_pos (hcause.resolve_left h12), hspp, if_true, Option.map_map]
    exact Option.map_id'

/-! ## The pages of one call of the heap -/

/-- A heap below `2 ^ 39` that does not start in the first page; `buddyInit` makes it start behind
the memory that it reserves (`buddyInit_paged`). -/
structure HeapBounds.Paged (heap : HeapBounds) : Prop where
  room : heap.Room
  first : pageSize ≤ heap.startAddr
  below : heap.endAddr ≤ 2 ^ 39

theorem buddyInit_paged {heap heap' : HeapBounds} {space : Nat} {b : Buddy}
    (h : Buddy.buddyInit heap 12 space 4096 = some (b, heap')) (hend : heap'.endAddr ≤ 2 ^ 39)
    (hroom : heap'.startAddr + sizeofBlockHeader < heap'.endAddr) : heap'.Paged := by
  have hregion := Buddy.buddyInit_region h
  obtain ⟨-, -, -, -, -, -, hstart⟩ := Buddy.buddyInit_fields h
  have hfirst : pageSize ≤ heap'.startAddr := by
    rw [hstart, hregion]
    unfold pageSize blockSize
    omega
  have hpos : 0 < pageSize := by decide
  exact ⟨⟨hpos.trans_le hfirst, hroom, hend.trans_lt (by decide)⟩, hfirst, hend⟩

namespace MemoryAllocator

variable {m : MemoryAllocator} {addr size x p : Nat}

/-- `kmem_alloc` maps the pages from that of the header to that of the end. -/
theorem mapBlock_ops (hlt : addr + sizeofBlockHeader + (m.header addr).size ≤ 2 ^ 39) (op : PageOp) :
    op ∈ (m.mapBlock addr).flatMap MmuCall.ops ↔ ∃ q, addr / pageSize ≤ q ∧
      q ≤ (addr + sizeofBlockHeader + (m.header addr).size) / pageSize ∧
      op = .map (q * pageSize) := by
  have hnum : sub64 (pageBegin (addr + sizeofBlockHeader + (m.header addr).size))
      (pageBegin addr) / blockSize =
      (addr + sizeofBlockHeader + (m.header addr).size) / pageSize - addr / pageSize := by
    unfold sub64 pageBegin blockSize pageSize
    omega
  unfold mapBlock
  simp only [hnum, List.mem_flatMap, List.mem_map, List.mem_range, exists_exists_and_eq_and,
    MmuCall.ops, List.mem_singleton]
  have hpage : ∀ i, pageBegin addr + i * blockSize = (addr / pageSize + i) * pageSize := fun i => by
    rw [Nat.add_mul]
    rfl
  constructor
  · intro h
    obtain ⟨i, hi, rfl⟩ := h
    refine ⟨addr / pageSize + i, Nat.le_add_right _ _, ?_, by rw [hpage]⟩
    have : addr / pageSize ≤ (addr + sizeofBlockHeader + (m.header addr).size) / pageSize :=
      Nat.div_le_div_right (by omega)
    omega
  · intro h
    obtain ⟨q, hq, hq', rfl⟩ := h
    exact ⟨q - addr / pageSize, by omega, by rw [hpage, Nat.add_sub_cancel' hq]⟩

/-- `tryToUnmap` unmaps pages that lie in the block as a whole. -/
theorem unmapCalls_ops (hfirst : pageSize ≤ addr) (hlt : addr + (size + sizeofBlockHeader) ≤ 2 ^ 39)
    {op : PageOp} (hop : op ∈ (unmapCalls addr size).flatMap MmuCall.ops) :
    ∃ q, op = .invalid (q * pageSize) ∧ addr ≤ q * pageSize ∧
      q * pageSize + pageSize ≤ addr + (size + sizeofBlockHeader) := by
  obtain ⟨call, hcall, hop⟩ := List.mem_flatMap.1 hop
  unfold unmapCalls at hcall
  simp only at hcall
  generalize hs : (if addr % blockSize ≠ 0 then pageBegin addr + blockSize else addr) = start at hcall
  have hstart : start = (addr + 4095) / 4096 * 4096 := by
    rw [← hs]
    unfold pageBegin blockSize
    split <;> omega
  have hend : sub64 (pageBegin (addr + (size + sizeofBlockHeader))) blockSize =
      (addr + (size + sizeofBlockHeader)) / 4096 * 4096 - 4096 := by
    have : 4096 ≤ addr := hfirst
    unfold sub64 pageBegin blockSize
    omega
  rw [hend] at hcall
  split at hcall
  · cases hcall
  · rename_i hle
    obtain rfl := List.mem_singleton.1 hcall
    obtain ⟨i, hi, rfl⟩ := List.mem_map.1 hop
    have hfirst : 4096 ≤ addr := hfirst
    have hsize : sizeofBlockHeader = 24 := rfl
    rw [List.mem_range, (MMU.pageNum_eq (Nat.le_of_not_lt hle) (by omega)).1] at hi
    unfold pageSize at hi ⊢
    have hpage : pageOf start = start := by
      unfold pageOf pageSize
      omega
    have hop : (start + i * 4096) % 2 ^ 64 = (start / 4096 + i) * 4096 := by omega
    exact ⟨start / 4096 + i, by rw [hpage, hop], by omega, by omega⟩

end MemoryAllocator

namespace HeapClient

variable {heap : HeapBounds} {s s' : HeapClient} {l : List Tile} {o : List (Tile × Nat)}
  {addr x n : Nat} {c : HeapCall}

/-- The byte `x` is in the block, the header or the payload, of the live address `addr`. -/
def Holds (s : HeapClient) (addr x : Nat) : Prop :=
  addr ∈ s.live.map Prod.fst ∧ addr - sizeofBlockHeader ≤ x ∧
    x < addr + (s.heap.header (addr - sizeofBlockHeader)).size

instance (s : HeapClient) (addr x : Nat) : Decidable (s.Holds addr x) :=
  inferInstanceAs (Decidable (_ ∧ _))

instance (s : HeapClient) (c : HeapCall) : Decidable (s.Ok c) :=
  match c with
  | .alloc _ => inferInstanceAs (Decidable (_ ∧ _))
  | .free addr => decidable_of_iff (∃ b ∈ s.live, b.1 = addr)
    ⟨fun ⟨b, hb, he⟩ => ⟨b.2, he ▸ hb⟩, fun ⟨_, hn⟩ => ⟨_, hn, rfl⟩⟩

theorem Inv.holds_iff (h : Inv s l o) :
    s.Holds addr x ↔ ∃ b ∈ lives l, payload b = addr ∧ b.addr ≤ x ∧ x < b.stop sizeofBlockHeader := by
  have hbyte : ∀ b ∈ lives l, payload b = addr →
      (addr - sizeofBlockHeader ≤ x ∧ x < addr + (s.heap.header (addr - sizeofBlockHeader)).size ↔
        b.addr ≤ x ∧ x < b.stop sizeofBlockHeader) := by
    intro b hb he
    subst he
    unfold payload
    rw [Nat.add_sub_cancel, h.blocks.size b (mem_lives.1 hb).1]
    rfl
  constructor
  · intro hx
    obtain ⟨hlive, hx⟩ := hx
    obtain ⟨⟨addr', n⟩, hmem, rfl⟩ := List.mem_map.1 hlive
    obtain ⟨b, hb, he, -⟩ := h.find hmem
    exact ⟨b, hb, he, (hbyte b hb he).1 hx⟩
  · intro hx
    obtain ⟨b, hb, he, hx⟩ := hx
    refine ⟨?_, (hbyte b hb he).2 hx⟩
    obtain ⟨⟨b', n⟩, ho, rfl⟩ := List.mem_map.1 (h.owned.mem_iff.2 hb)
    rw [h.live, List.map_map]
    exact List.mem_map.2 ⟨_, ho, he⟩

/-- The bytes of the live blocks are bytes of the heap. -/
theorem Reached.holds_bounds (h : Reached heap s) (hx : s.Holds addr x) :
    heap.startAddr ≤ x ∧ x < heap.endAddr := by
  rcases h with rfl | ⟨rfl, l, o, h⟩
  · cases hx.1
  · obtain ⟨b, hb, -, hlo, hhi⟩ := h.holds_iff.1 hx
    obtain ⟨h1, h2⟩ := h.blocks.bounds (mem_lives.1 hb).1
    exact ⟨h1.trans hlo, hhi.trans_le h2⟩

/-- A call of the heap: the payload that it returns, and its calls of the page table. -/
def calls (s : HeapClient) : HeapCall → Option (Ptr × List MmuCall)
  | .alloc n => (s.heap.kmem_alloc n).map fun r => (r.1, r.2.1)
  | .free addr => (s.heap.kmem_free (some addr)).map fun r => (none, r.2.1)

/-- What a call of the heap does to the page table: a page that it maps is that of a byte below
`2 ^ 39` or the next one, a page that it unmaps holds no byte of a live block, and a block that it
makes live has its pages mapped. -/
structure PagesOf (heap : HeapBounds) (s s' : HeapClient) (fresh : Ptr) (ops : List PageOp) :
    Prop where
  map : ∀ p, .map p ∈ ops → pageSize ∣ p ∧ p ≤ 2 ^ 39
  invalid : ∀ p, .invalid p ∈ ops → pageSize ∣ p ∧ p < 2 ^ 39 ∧
    ∀ addr x, s'.Holds addr x → pageOf x ≠ p
  holds : ∀ addr x, s'.Holds addr x →
    s.Holds addr x ∨ fresh = some addr ∧ .map (pageOf x) ∈ ops

/-- Nothing is live before the first call. -/
theorem Reached.holds_start (h : Reached heap s) (hx : Holds ⟨s.heap.start, s.live⟩ addr x) :
    s.Holds addr x := by
  rcases h with rfl | ⟨-, l, o, h⟩
  · cases hx.1
  · rwa [MemoryAllocator.start_of_init h.started] at hx

theorem Reached.pagesOf_alloc (h : Reached heap s) (hp : heap.Paged) (hok : s.Ok (.alloc n)) :
    ∃ fresh calls s', s.calls (.alloc n) = some (fresh, calls) ∧ s.step (.alloc n) = some s' ∧
      Reached heap s' ∧ PagesOf heap s s' fresh (calls.flatMap MmuCall.ops) := by
  obtain ⟨hheap, l, o, hinv⟩ := h.inv_start hp.room
  obtain ⟨fresh, calls, m', l', o', he, hheap', hinv', hcalls⟩ := hinv.kmem_alloc hok.1 hok.2
  rw [kmem_alloc_start] at he
  have hends : m'.heap = heap := hheap'.trans hheap
  refine ⟨fresh, calls, _, by simp only [HeapClient.calls, he, Option.map_some],
    by simp only [HeapClient.step, he, Option.map_some], .inr ⟨hends, l', o', hinv'⟩, ?_⟩
  have hold : ∀ addr x b, b ∈ lives l → payload b = addr → b.addr ≤ x →
      x < b.stop sizeofBlockHeader → s.Holds addr x :=
    fun addr x b hb he hlo hhi => h.holds_start (hinv.holds_iff.2 ⟨b, hb, he, hlo, hhi⟩)
  rcases hcalls with ⟨-, rfl, hlives⟩ | ⟨b, hb, rfl, rfl, hlives⟩
  · refine ⟨fun p hop => absurd hop List.not_mem_nil, fun p hop => absurd hop List.not_mem_nil,
      fun addr x hx => .inl ?_⟩
    obtain ⟨c, hc, he, hlo, hhi⟩ := hinv'.holds_iff.1 hx
    exact hold addr x c (hlives ▸ hc) he hlo hhi
  · have hbounds := hinv'.blocks.bounds (mem_lives.1 hb).1
    have hsize := hinv'.blocks.size b (mem_lives.1 hb).1
    simp only [hends] at hbounds
    have hbelow := hp.below
    have hlt : b.addr + sizeofBlockHeader + (m'.header b.addr).size ≤ 2 ^ 39 := by
      simp only at hsize
      rw [hsize]
      unfold sizeofBlockHeader
      omega
    have hops := MemoryAllocator.mapBlock_ops hlt
    refine ⟨fun p hop => ?_, fun p hop => ?_, fun addr x hx => ?_⟩
    · obtain ⟨q, hq, hq', he⟩ := (hops _).1 hop
      obtain rfl := PageOp.map.inj he
      refine ⟨Nat.dvd_mul_left _ _, ?_⟩
      have hheader : sizeofBlockHeader = 24 := rfl
      rw [hsize] at hq'
      unfold pageSize at hq' ⊢
      omega
    · obtain ⟨q, -, -, he⟩ := (hops _).1 hop
      cases he
    · obtain ⟨c, hc, rfl, hlo, hhi⟩ := hinv'.holds_iff.1 hx
      cases hlives c hc with
      | inl hcb =>
        subst hcb
        refine .inr ⟨rfl, (hops _).2 ⟨x / pageSize, Nat.div_le_div_right hlo,
          Nat.div_le_div_right ?_, rfl⟩⟩
        rw [hsize]
        exact hhi.le
      | inr hcl => exact .inl (hold _ x c hcl rfl hlo hhi)

theorem Reached.pagesOf_free (h : Reached heap s) (hp : heap.Paged) (hok : s.Ok (.free addr)) :
    ∃ fresh calls s', s.calls (.free addr) = some (fresh, calls) ∧ s.step (.free addr) = some s' ∧
      Reached heap s' ∧ PagesOf heap s s' fresh (calls.flatMap MmuCall.ops) := by
  obtain ⟨n, ha⟩ := hok
  rcases h with rfl | ⟨hheap, l, o, hinv⟩
  · cases ha
  obtain ⟨calls, m', l', o', he, hheap', hinv', hlives, hcalls⟩ := hinv.kmem_free ha
  have hends : m'.heap = heap := hheap'.trans hheap
  refine ⟨none, calls, _, by simp only [HeapClient.calls, he, Option.map_some],
    by simp only [HeapClient.step, he, Option.map_some], .inr ⟨hends, l', o', hinv'⟩, ?_⟩
  -- a page that is unmapped lies in a free block
  have hop : ∀ op ∈ calls.flatMap MmuCall.ops, ∃ q, ∃ u ∈ l', u.free = true ∧
      op = .invalid (q * pageSize) ∧ u.addr ≤ q * pageSize ∧
      q * pageSize + pageSize ≤ u.stop sizeofBlockHeader := by
    intro op hop
    obtain ⟨call, hcall, hop⟩ := List.mem_flatMap.1 hop
    obtain ⟨t, u, hu, hfree, hlo, hhi, ht⟩ := hcalls call hcall
    have hbounds := hinv'.blocks.bounds hu
    simp only [hends] at hbounds
    have hfirst := hp.first
    have hbelow := hp.below
    unfold Tile.stop at hhi ⊢
    have hsize : sizeofBlockHeader = 24 := rfl
    obtain ⟨q, he, h1, h2⟩ := MemoryAllocator.unmapCalls_ops (by omega) (by omega)
      (List.mem_flatMap.2 ⟨call, ht, hop⟩)
    exact ⟨q, u, hu, hfree, he, by omega, by omega⟩
  refine ⟨fun p hmap => ?_, fun p hmap => ?_, fun addr x hx => .inl ?_⟩
  · obtain ⟨q, u, -, -, he, -⟩ := hop _ hmap
    cases he
  · obtain ⟨q, u, hu, hfree, he, h1, h2⟩ := hop _ hmap
    obtain rfl := PageOp.invalid.inj he
    have hbounds := hinv'.blocks.tiling.bounds hu
    simp only [hends] at hbounds
    have hbelow := hp.below
    have hpos : 0 < pageSize := by decide
    refine ⟨Nat.dvd_mul_left _ _, by omega, fun addr x hx he => ?_⟩
    obtain ⟨c, hc, -, hlo, hhi⟩ := hinv'.holds_iff.1 hx
    obtain ⟨hcl, hcf⟩ := mem_lives.1 hc
    have hne : c ≠ u := by
      intro hcu
      rw [hcu, hfree] at hcf
      cases hcf
    have hsep := hinv'.blocks.tiling.separate hcl hu hne
    unfold pageOf at he
    have hdiv := Nat.div_add_mod x pageSize
    have hmod := Nat.mod_lt x hpos
    rw [Nat.mul_comm] at hdiv
    omega
  · obtain ⟨c, hc, he, hx⟩ := hinv'.holds_iff.1 hx
    exact hinv.holds_iff.2 ⟨c, hlives c hc, he, hx⟩

theorem Reached.pagesOf (h : Reached heap s) (hp : heap.Paged) (hok : s.Ok c) :
    ∃ fresh calls s', s.calls c = some (fresh, calls) ∧ s.step c = some s' ∧
      Reached heap s' ∧ PagesOf heap s s' fresh (calls.flatMap MmuCall.ops) := by
  cases c with
  | alloc n => exact h.pagesOf_alloc hp hok
  | free addr => exact h.pagesOf_free hp hok

end HeapClient

/-! ## Runs -/

/-- The heap and the page table: what the running call of the heap still does to pages, and the
payload that it returns. -/
structure UserHeap where
  client : HeapClient
  mmu : MMU
  pending : List PageOp
  fresh : Ptr

/-- A call of the heap starts, goes on with the next page, or the kernel faults. -/
inductive UserCall
  | heap (c : HeapCall)
  | page
  | fault (f : Trap)

namespace UserHeap

open MMU

variable {heap : HeapBounds} {extra : List (Nat × Nat)} {s s' t : UserHeap} {call : UserCall}
  {calls : List UserCall} {mmu : MMU}

def step (s : UserHeap) : UserCall → Option UserHeap
  | .heap c => do
    let (fresh, calls) ← s.client.calls c
    let client ← s.client.step c
    return { s with client, fresh, pending := calls.flatMap MmuCall.ops }
  | .page =>
    match s.pending with
    | [] => none
    | op :: ops => (s.mmu.pageOp op).map fun mmu => { s with mmu, pending := ops }
  | .fault f => (s.mmu.fault f).map fun mmu => { s with mmu }

/-- A call of the heap ends before the next one starts; the kernel faults on pages that are not
mapped. -/
def Ok (s : UserHeap) : UserCall → Prop
  | .heap c => s.pending = [] ∧ s.client.Ok c
  | .page => s.pending ≠ []
  | .fault f => f.Kernel ∧ ¬ valid (s.mmu.walk f.vaddr)

instance (s : UserHeap) (call : UserCall) : Decidable (s.Ok call) :=
  match call with
  | .heap c => inferInstanceAs (Decidable (s.pending = [] ∧ s.client.Ok c))
  | .page => inferInstanceAs (Decidable (s.pending ≠ []))
  | .fault f => inferInstanceAs (Decidable (f.Kernel ∧ ¬ valid (s.mmu.walk f.vaddr)))

/-- The step needs a page that the buddy allocator does not have. -/
def Short (s : UserHeap) : UserCall → Prop
  | .heap _ => False
  | .page => ∃ p ops, s.pending = .map p :: ops ∧ ¬ s.mmu.buddy.Supplies (s.mmu.missing p)
  | .fault f => ¬ s.mmu.buddy.Supplies (s.mmu.missing f.vaddr)

/-- The pages of the live blocks are mapped, or about to be mapped by the call that makes the block
live; the pages that are about to be unmapped are no such pages. -/
structure Inv (heap : HeapBounds) (extra : List (Nat × Nat)) (s : UserHeap) : Prop where
  reached : Reached heap s.client
  mmu : s.mmu.Inv extra
  map : ∀ p, .map p ∈ s.pending → pageSize ∣ p ∧ p ≤ 2 ^ 39
  invalid : ∀ p, .invalid p ∈ s.pending → pageSize ∣ p ∧ p < 2 ^ 39 ∧
    ∀ addr x, s.client.Holds addr x → pageOf x ≠ p
  mapped : ∀ addr x, s.client.Holds addr x → s.mmu.walk x = pgDesc x UserReadWriteExecute ∨
    s.fresh = some addr ∧ .map (pageOf x) ∈ s.pending

/-- The pages of the heap have slots of their own. -/
theorem pageOf_of_slot {x p : Nat} (hx : pageSize ≤ x) (hx' : x < 2 ^ 39) (hp : pageSize ∣ p)
    (hp' : p ≤ 2 ^ 39) (h : slot x = slot p) : pageOf x = p := by
  obtain ⟨q, rfl⟩ := hp
  unfold slot pageSize at h
  unfold pageOf
  unfold pageSize at *
  omega

/-- One page of the running call. -/
theorem Inv.page {op : PageOp} {ops : List PageOp} (hp : heap.Paged) (h : Inv heap extra s)
    (hpend : s.pending = op :: ops) (hs : s.mmu.pageOp op = some mmu) :
    Inv heap extra { s with mmu, pending := ops } := by
  have hmem : ∀ op' ∈ ops, op' ∈ s.pending := fun op' hop => hpend ▸ .tail _ hop
  have hbounds : ∀ addr x, s.client.Holds addr x → pageSize ≤ x ∧ x < 2 ^ 39 := fun addr x hx =>
    ⟨hp.first.trans (h.reached.holds_bounds hx).1, (h.reached.holds_bounds hx).2.trans_le hp.below⟩
  have hframe : mmu.Inv extra → (∀ addr x, s.client.Holds addr x →
      mmu.walk x = pgDesc x UserReadWriteExecute ∨ s.fresh = some addr ∧ .map (pageOf x) ∈ ops) →
      Inv heap extra { s with mmu, pending := ops } := fun hmmu hmapped =>
    ⟨h.reached, hmmu, fun p hmap => h.map p (hmem _ hmap), fun p hinv => h.invalid p (hmem _ hinv),
      hmapped⟩
  cases op with
  | map p =>
    obtain ⟨hdvd, hle⟩ := h.map p (hpend ▸ .head _)
    rcases h.mmu.map p UserReadWriteExecute with ⟨-, hn⟩ | ⟨s₁, he, -, h₁, -, hwalk, -⟩
    · rw [pageOp, hn] at hs
      cases hs
    · obtain rfl := Option.some.inj (he.symm.trans hs)
      apply hframe h₁
      intro addr x hx
      obtain ⟨hlo, hhi⟩ := hbounds addr x hx
      rw [hwalk]
      by_cases hslot : slot x = slot p
      · have hpage := pageOf_of_slot hlo hhi hdvd hle hslot
        rw [if_pos hslot]
        refine .inl (pgDesc_congr ?_ _)
        rw [← hpage, pageOf_pageOf]
      · rw [if_neg hslot]
        refine (h.mapped addr x hx).imp_right fun hpage => ⟨hpage.1, ?_⟩
        obtain ⟨-, hpage⟩ := hpage
        rw [hpend] at hpage
        cases hpage with
        | head => exact absurd (slot_pageOf x).symm hslot
        | tail _ hpage => exact hpage
  | invalid p =>
    obtain ⟨hdvd, hlt, hfree⟩ := h.invalid p (hpend ▸ .head _)
    obtain ⟨s₁, he, h₁, -, hwalk⟩ := h.mmu.invalid p
    obtain rfl := Option.some.inj (he.symm.trans hs)
    apply hframe h₁
    intro addr x hx
    obtain ⟨hlo, hhi⟩ := hbounds addr x hx
    have hslot : slot x ≠ slot p := fun hc =>
      hfree addr x hx (pageOf_of_slot hlo hhi hdvd hlt.le hc)
    rw [hwalk, if_neg hslot]
    refine (h.mapped addr x hx).imp_right fun hpage => ⟨hpage.1, ?_⟩
    obtain ⟨-, hpage⟩ := hpage
    rw [hpend] at hpage
    cases hpage with
    | tail _ hpage => exact hpage

/-- A fault on a page that is not mapped leaves the mapped ones alone. -/
theorem Inv.fault {f : Trap} (h : Inv heap extra s) (hf : f.Kernel)
    (hv : ¬ valid (s.mmu.walk f.vaddr)) (hs : s.mmu.fault f = some mmu) :
    Inv heap extra { s with mmu } := by
  rw [fault_kernel hf] at hs
  rcases h.mmu.map f.vaddr ReadWriteExecute with ⟨-, hn⟩ | ⟨s₁, he, -, h₁, -, hwalk, -⟩
  · rw [hn] at hs
    cases hs
  · obtain rfl := Option.some.inj (he.symm.trans hs)
    refine ⟨h.reached, h₁, h.map, h.invalid, fun addr x hx => ?_⟩
    refine (h.mapped addr x hx).imp_left fun hx => ?_
    have hslot : slot x ≠ slot f.vaddr := by
      intro hc
      obtain ⟨hr, addr, tables, hrep⟩ := h.mmu
      rw [hrep.walk_eq hr, ← hc, ← hrep.walk_eq hr, hx] at hv
      exact hv (valid_pgDesc _ _)
    rw [hwalk, if_neg hslot, hx]

/-- Every admitted step returns, unless a page is lacking, and keeps the invariant. -/
theorem Inv.returns (hp : heap.Paged) (h : Inv heap extra s) (hok : s.Ok call) :
    (s.Short call ∧ s.step call = none) ∨ ∃ s', s.step call = some s' ∧ Inv heap extra s' := by
  cases call with
  | heap c =>
    obtain ⟨hpend, hok⟩ := hok
    obtain ⟨fresh, calls, client, hcalls, hstep, hreached, hpages⟩ := h.reached.pagesOf hp hok
    refine .inr ⟨{ s with client, fresh, pending := calls.flatMap MmuCall.ops }, ?_, hreached, h.mmu,
      hpages.map, hpages.invalid, fun addr x hx => ?_⟩
    · unfold UserHeap.step
      simp only [hcalls, hstep, Option.bind_eq_bind, Option.bind_some]
      rfl
    · refine (hpages.holds addr x hx).imp_left fun hx => ?_
      cases h.mapped addr x hx with
      | inl hx => exact hx
      | inr hx =>
        obtain ⟨-, hx⟩ := hx
        rw [hpend] at hx
        cases hx
  | page =>
    obtain ⟨op, ops, hpend⟩ := List.exists_cons_of_ne_nil hok
    have hreturns : (∃ mmu, s.mmu.pageOp op = some mmu) → ∃ s', s.step .page = some s' ∧
        Inv heap extra s' := by
      intro hex
      obtain ⟨mmu, hop⟩ := hex
      refine ⟨_, ?_, h.page hp hpend hop⟩
      simp only [UserHeap.step, hpend, hop, Option.map_some]
    cases op with
    | map p =>
      rcases h.mmu.map p UserReadWriteExecute with ⟨hs, hn⟩ | ⟨mmu, he, -⟩
      · refine .inl ⟨⟨p, ops, hpend, hs⟩, ?_⟩
        simp only [UserHeap.step, hpend, pageOp, hn, Option.map_none]
      · exact .inr (hreturns ⟨mmu, he⟩)
    | invalid p =>
      obtain ⟨mmu, he, -⟩ := h.mmu.invalid p
      exact .inr (hreturns ⟨mmu, he⟩)
  | fault f =>
    obtain ⟨hf, hv⟩ := hok
    rcases h.mmu.map f.vaddr ReadWriteExecute with ⟨hs, hn⟩ | ⟨mmu, he, -⟩
    · exact .inl ⟨hs, by simp only [UserHeap.step, fault_kernel hf, hn, Option.map_none]⟩
    · rw [← fault_kernel hf] at he
      exact .inr ⟨_, by simp only [UserHeap.step, he, Option.map_some], h.fault hf hv he⟩

theorem run_inv (hp : heap.Paged) (h : Inv heap extra s) (hrun : Run Ok step s calls t) :
    Inv heap extra t := by
  apply hrun.inv (Inv heap extra) _ h
  intro s₁ call s₂ h₁ hok hs
  rcases h₁.returns hp hok with ⟨-, hn⟩ | ⟨s', he, h'⟩
  · rw [hn] at hs
    cases hs
  · obtain rfl := Option.some.inj (he.symm.trans hs)
    exact h'

/-- The heap before its first call. -/
def start (heap : HeapBounds) (mmu : MMU) : UserHeap where
  client := ⟨MemoryAllocator.reset heap, []⟩
  mmu
  pending := []
  fresh := none

theorem start_inv (hmmu : mmu.Inv extra) : Inv heap extra (start heap mmu) :=
  ⟨.inl rfl, hmmu, nofun, nofun, fun _ _ hx => nomatch hx.1⟩

/-! ## The result -/

/-- **Live user memory stays mapped.** Take a page table after any calls since the first statements of
`MMUInit`, and any run of allocations, frees and faults of the kernel in between. Then every byte of
every live block lies in a page with a valid identity entry for reading, writing and executing in user
mode; while an allocation is mapping its pages, this holds of every block but the new one. A page that
is still to be unmapped holds no byte of a live block. A step that does not return lacks a page. -/
theorem live_memory_mapped {pages pages' : PageClient} {pcalls : List PageCall} (hp : heap.Paged)
    (hstart : pages.Started) (hpages : Run PageClient.Ok PageClient.step pages pcalls pages')
    (hrun : Run Ok step (start heap pages'.mmu) calls t) :
    (∀ addr x, t.client.Holds addr x → t.pending = [] ∨ t.fresh ≠ some addr →
      t.mmu.translation x = some (FlatMap.identity (x / pageSize) UserReadWriteExecute)) ∧
    (∀ p, .invalid p ∈ t.pending → ∀ addr x, t.client.Holds addr x → pageOf x ≠ p) ∧
    ∀ call, t.Ok call → ¬ t.Short call → ∃ t', t.step call = some t' := by
  have h := run_inv hp (start_inv (PageClient.run_inv hstart.inv.1 hpages).1) hrun
  refine ⟨fun addr x hx hbusy => ?_, fun p hinv => (h.invalid p hinv).2.2, fun call hok hs => ?_⟩
  · have hwalk : t.mmu.walk x = pgDesc x UserReadWriteExecute := by
      cases h.mapped addr x hx with
      | inl hwalk => exact hwalk
      | inr hpend =>
        cases hbusy with
        | inl hnil =>
          have := hpend.2
          rw [hnil] at this
          cases this
        | inr hne => exact absurd hpend.1 hne
    unfold translation
    rw [hwalk, if_pos (valid_pgDesc _ _)]
    rfl
  · rcases h.returns hp hok with ⟨hc, -⟩ | ⟨t', he, -⟩
    · exact absurd hc hs
    · exact ⟨t', he⟩

/-- A heap of four pages. -/
def fourPages : HeapBounds := ⟨0x88000000, 0x88004000⟩

/-- Of three blocks, the middle one is freed; it ends in the page of the last one. The first header
is written before its page is mapped. -/
def freeMiddle : List UserCall :=
  [.fault ⟨15, 0, 0x88000000, true⟩, .heap (.alloc 60), .page, .heap (.alloc 100), .page, .page, .page,
    .heap (.alloc 1), .page, .heap (.free 0x88000f30), .page]

theorem live_memory_mapped_freeMiddle : ∃ (pages : PageClient) (t : UserHeap), pages.Started ∧
    Run Ok step (start fourPages pages.mmu) freeMiddle t ∧ t.client.Holds 0x88002848 0x88002830 ∧
    t.mmu.translation 0x88001000 = none ∧
    t.mmu.translation 0x88002830 = some (FlatMap.identity 0x88002 UserReadWriteExecute) := by
  have h : (PageClient.start128.bind fun s =>
      (exec Ok step (start fourPages s.mmu) freeMiddle).bind fun t =>
        if t.client.Holds 0x88002848 0x88002830 ∧ t.pending = [] ∧
          t.mmu.translation 0x88001000 = none then some () else none) = some () := by
    decide +kernel
  obtain ⟨s, hs, h⟩ := Option.bind_eq_some_iff.1 h
  obtain ⟨t, ht, h⟩ := Option.bind_eq_some_iff.1 h
  obtain ⟨⟨hholds, hpend, hnone⟩, -⟩ := Option.ite_none_right_eq_some.1 h
  have hpaged : fourPages.Paged := ⟨⟨by decide, by decide, by decide⟩, by decide, by decide⟩
  have hrun := Run.of_exec ht
  obtain ⟨hmapped, -⟩ := live_memory_mapped hpaged (PageClient.start128_started hs) .nil hrun
  exact ⟨s, t, PageClient.start128_started hs, hrun, hholds, hnone,
    hmapped _ _ hholds (.inl hpend)⟩

end UserHeap

end SlabKernel
