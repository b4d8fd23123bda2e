import SlabKernel.Heap.Pool

/-!
# The heap represents a tiling

`Blocks m l`: the blocks `l` tile the heap, the free list of `m` links the free ones in the order of
their addresses, and every header holds its block's size. The operations are those of `Pool`, with
the free list `frees l`; `Blocks.kmem_alloc` and `Blocks.kmem_free` say what the calls make of `l`.
-/

namespace SlabKernel

open Function (update update_self update_apply update_of_ne)
open PtrList Tiles

namespace MemoryAllocator

variable {m : MemoryAllocator} {l l₁ l₂ : List Tile} {b c : Tile}

/-- The blocks of the heap. -/
structure Blocks (m : MemoryAllocator) (l : List Tile) : Prop where
  tiling : Tiling sizeofBlockHeader m.heap.startAddr l m.heap.endAddr
  links : DList (fun a => (m.header a).next) (fun a => (m.header a).prev) m.fmem_head (frees l)
  size : ∀ b ∈ l, (m.header b.addr).size = b.size

namespace Blocks

theorem pool (h : Blocks m l) : Pool m l (frees l) := ⟨h.tiling, h.links, .refl _, h.size⟩

/-- A pool whose list is in the order of the addresses. -/
theorem of_pool (h : Pool m l (frees l)) : Blocks m l := ⟨h.tiling, h.links, h.size⟩

/-- The pool around a free block. -/
theorem pool_free (h : Blocks m (l₁ ++ b :: l₂)) (hb : b.free = true) :
    Pool m (l₁ ++ b :: l₂) (frees l₁ ++ b.addr :: frees l₂) := by
  have hp := h.pool
  rwa [frees_append, frees_cons_free hb] at hp

/-- The space of a block. -/
theorem bounds (h : Blocks m l) (hb : b ∈ l) :
    m.heap.startAddr ≤ b.addr ∧ b.addr + 24 + b.size ≤ m.heap.endAddr :=
  h.pool.bounds hb

/-- The blocks in front of `b` end before it, those behind start after it. -/
theorem around (h : Blocks m (l₁ ++ b :: l₂)) :
    (∀ a ∈ l₁, a.addr + 24 + a.size ≤ b.addr) ∧ ∀ c ∈ l₂, b.addr + 24 + b.size ≤ c.addr :=
  h.tiling.around

theorem length_le (h : Blocks m l) : l.length ≤ m.heap.endAddr - m.heap.startAddr :=
  h.tiling.length_le (by decide)

variable {bytes : Nat}

/-- The check after a split never fires. -/
theorem fits (h : Blocks m (l₁ ++ b :: l₂)) (hb : b.free = true) (hword : m.heap.endAddr < 2 ^ 64)
    (hle : bytes ≤ b.size) (hrem : sizeofBlockHeader < sub64 b.size bytes) :
    ¬ (m.splitBlock b.addr bytes (sub64 b.size bytes)).leavesHeap
      (b.addr + (sizeofBlockHeader + bytes)) :=
  (h.pool_free hb).fits hword hle hrem

end Blocks

/-! ## `kmem_alloc` -/

/-- The search finds the first free block that is large enough. -/
theorem findLoop_spec {fuel : Nat} {p : Ptr} (bytes : Nat)
    (hl : Linked (fun a => (m.header a).next) p (frees l))
    (hsize : ∀ b ∈ l, (m.header b.addr).size = b.size) (hf : l.length ≤ fuel) :
    (m.findLoop bytes fuel p = some none ∧ ∀ b ∈ l, b.free = true → b.size < bytes) ∨
    ∃ l₁ b l₂, l = l₁ ++ b :: l₂ ∧ b.free = true ∧ bytes ≤ b.size ∧
      m.findLoop bytes fuel p = some (some b.addr) := by
  have hlen : (frees l).length ≤ fuel := by
    rw [frees, List.length_map]
    exact Nat.le_trans (List.length_filter_le _ _) hf
  cases findLoop_first bytes hl hlen with
  | inl hnone =>
    obtain ⟨he, hall⟩ := hnone
    refine .inl ⟨he, fun b hb hbf => ?_⟩
    rw [← hsize b hb]
    exact hall _ (mem_frees.2 ⟨b, hb, hbf, rfl⟩)
  | inr hsome =>
    obtain ⟨F₁, x, F₂, hF, -, hle, he⟩ := hsome
    obtain ⟨l₁, b, l₂, rfl, hb, rfl, -, -⟩ := frees_eq_append hF
    rw [hsize b (by simp)] at hle
    exact .inr ⟨l₁, b, l₂, rfl, hb, hle, he⟩

/-- The first call makes one block of the heap. -/
theorem start_spec (hhead : m.fmem_head = none) (hinit : m.init = 0)
    (hroom : m.heap.startAddr + sizeofBlockHeader < m.heap.endAddr)
    (hword : m.heap.endAddr < 2 ^ 64) :
    m.start.heap = m.heap ∧ m.start.init = 1 ∧ Blocks m.start
      [⟨m.heap.startAddr, m.heap.endAddr - m.heap.startAddr - sizeofBlockHeader, true⟩] := by
  have hs : sub64 (sub64 m.heap.endAddr m.heap.startAddr) sizeofBlockHeader =
      m.heap.endAddr - m.heap.startAddr - sizeofBlockHeader := by
    rw [sub64_of_le (a := m.heap.endAddr) (by omega) (by omega), sub64_of_le (by omega) (by omega)]
  unfold start
  rw [if_pos ⟨hhead, hinit⟩]
  simp only [hs]
  refine ⟨trivial, trivial, ⟨rfl, ?_⟩, ?_, fun b hb => ?_⟩
  · simp only [tiling_nil, Tile.stop]
    omega
  · exact ⟨some m.heap.startAddr, rfl, by simp, rfl, by simp⟩
  · obtain rfl := List.mem_singleton.1 hb
    simp

namespace Blocks

/-- `kmem_alloc` takes the first free block that is large enough, if there is one. -/
theorem kmem_alloc (h : Blocks m l) (hinit : m.init ≠ 0) (hword : m.heap.endAddr < 2 ^ 64)
    {n : Nat} (hn : n * memBlockSize < 2 ^ 64) :
    (m.kmem_alloc n = some (none, [], m) ∧ ∀ b ∈ l, b.free = true → b.size < n * memBlockSize) ∨
    ∃ l₁ b l₂ m', l = l₁ ++ b :: l₂ ∧ b.free = true ∧ n * memBlockSize ≤ b.size ∧
      (∀ x ∈ frees l₁, (m.header x).size < n * memBlockSize) ∧
      m.kmem_alloc n = some (some (b.addr + sizeofBlockHeader), m'.mapBlock b.addr, m') ∧
      m'.heap = m.heap ∧ m'.init = m.init ∧
      Blocks m' (l₁ ++ (b.cut sizeofBlockHeader (n * memBlockSize) ++ l₂)) := by
  have hspec := h.pool.kmem_alloc hinit hword n
  rw [Nat.mod_eq_of_lt hn] at hspec
  cases hspec with
  | inl hnone =>
    obtain ⟨he, hall⟩ := hnone
    refine .inl ⟨he, fun b hb hbf => ?_⟩
    rw [← h.size b hb]
    exact hall _ (mem_frees.2 ⟨b, hb, hbf, rfl⟩)
  | inr hsome =>
    obtain ⟨l₁, b, l₂, F₁, F₂, m', rfl, hb, hF, hle, hall, -, -, he, hheap, hinit', h'⟩ := hsome
    -- the place of `b` in the list is its place in the tiling
    obtain ⟨h1, h2⟩ := (h.pool_free hb).addr_notMem
    rw [frees_append, frees_cons_free hb] at hF
    obtain ⟨rfl, -, rfl⟩ := (List.append_cons_inj_of_notMem h1 h2).1 hF
    refine .inr ⟨l₁, b, l₂, m', rfl, hb, hle, hall, he, hheap, hinit', of_pool ?_⟩
    rw [frees_append, frees_append]
    exact h'

end Blocks

/-! ## `kmem_free` -/

/-- The walk ends at the last block below the payload. -/
theorem seekLoop_spec {addr curr fuel : Nat} {xs ys : List Nat}
    (hl : Linked (fun a => (m.header a).next) (some curr) (curr :: (xs ++ ys)))
    (hxs : ∀ x ∈ xs, x < addr) (hys : ∀ y ∈ ys, addr ≤ y) (hf : xs.length < fuel) :
    (m.seekLoop addr fuel curr) = (curr :: xs).getLast? := by
  induction xs generalizing curr fuel with
  | nil =>
    cases fuel with
    | zero => exact absurd hf (Nat.not_lt_zero _)
    | succ fuel =>
      unfold seekLoop
      cases ys with
      | nil =>
        have hn : (m.header curr).next = none := hl.2
        simp only [hn, List.getLast?_singleton]
      | cons y ys =>
        have hn : (m.header curr).next = some y := hl.2.1
        have := hys y (.head _)
        simp only [hn, if_neg (show ¬ addr > y by omega), List.getLast?_singleton]
  | cons x xs ih =>
    cases fuel with
    | zero => exact absurd hf (Nat.not_lt_zero _)
    | succ fuel =>
      have hn : (m.header curr).next = some x := hl.2.1
      unfold seekLoop
      simp only [hn, if_pos (hxs x (.head _))]
      rw [ih ⟨rfl, hl.2.2⟩ (fun z hz => hxs z (.tail _ hz)) (Nat.lt_of_succ_lt_succ hf),
        List.getLast?_cons_cons]

namespace Blocks

/-- The free blocks behind a block that is not empty lie above its payload. -/
theorem above (h : Blocks m (l₁ ++ b :: l₂)) (hpos : 0 < b.size) :
    ∀ x ∈ frees l₂, b.addr + sizeofBlockHeader < x := by
  obtain ⟨-, h2⟩ := h.around
  intro x hx
  obtain ⟨c, hc, -, rfl⟩ := mem_frees.1 hx
  have := h2 c hc
  unfold sizeofBlockHeader
  omega

/-- The search for the place of a live block. -/
theorem seek (h : Blocks m (l₁ ++ b :: l₂)) (hb : b.free = false) (hpos : ∀ x ∈ frees l₂, b.addr + sizeofBlockHeader < x)
    (hword : m.heap.endAddr < 2 ^ 64) :
    m.seek (b.addr + sizeofBlockHeader) = some (frees l₁).getLast? := by
  obtain ⟨h1, -⟩ := h.around
  have hl := h.links.linked
  rw [frees_append, frees_cons_live hb] at hl
  have hbelow : ∀ x ∈ frees l₁, x < b.addr + sizeofBlockHeader := by
    intro x hx
    obtain ⟨c, hc, -, rfl⟩ := mem_frees.1 hx
    have := h1 c hc
    omega
  have habove := hpos
  unfold MemoryAllocator.seek
  cases hf : frees l₁ with
  | nil =>
    rw [hf] at hl
    cases hf₂ : frees l₂ with
    | nil =>
      rw [hf₂] at hl
      have hh : m.fmem_head = none := hl
      rw [hh, List.getLast?_nil]
    | cons y ys =>
      rw [hf₂] at hl habove
      have hh : m.fmem_head = some y := hl.1
      simp only [hh, if_pos (habove y (.head _)), List.getLast?_nil]
  | cons x xs =>
    rw [hf] at hl hbelow
    have hh : m.fmem_head = some x := hl.1
    have hlen : (frees l₁).length ≤ (l₁ ++ b :: l₂).length := by
      refine Nat.le_trans ?_ (List.sublist_append_left _ _).length_le
      rw [frees, List.length_map]
      exact List.length_filter_le _ _
    have := h.length_le
    rw [hf, List.length_cons] at hlen
    have hx := hbelow x (.head _)
    simp only [hh, if_neg (show ¬ b.addr + sizeofBlockHeader < x by omega)]
    rw [seekLoop_spec ⟨rfl, hl.2⟩ (fun z hz => hbelow z (.tail _ hz))
      (fun z hz => Nat.le_of_lt (habove z hz)) (by unfold addrSpace; omega),
      List.getLast?_eq_some_getLast (List.cons_ne_nil _ _)]
    rfl

/-- A live block joins the free list. -/
theorem link (h : Blocks m (l₁ ++ b :: l₂)) (hb : b.free = false) :
    Blocks (m.linkBlock b.addr (frees l₁).getLast?) (l₁ ++ { b with free := true } :: l₂) := by
  have hp := h.pool
  rw [frees_append, frees_cons_live hb] at hp
  have hl := hp.link hb
  apply of_pool
  rw [frees_append, frees_cons_free rfl]
  exact hl

/-- A free block with no free block behind it is left alone. -/
theorem join_none (h : Blocks m (l₁ ++ b :: l₂)) (hb : b.free = true)
    (hl₂ : ∀ c ∈ l₂.head?, c.free = false) : m.tryToJoin (some b.addr) = (false, m) := by
  refine (h.pool_free hb).join_none (by simp) fun x hx he => ?_
  cases hf : frees l₂ with
  | nil =>
    rw [hf] at hx
    cases hx
  | cons y ys =>
    obtain ⟨l, c, l₃, rfl, hc, rfl, -, -⟩ := frees_eq_cons hf
    rw [hf, List.head?_cons, Option.mem_some_iff] at hx
    subst hx
    obtain rfl := (stop_eq_iff (by decide) h.tiling).1 he
    have := hl₂ c rfl
    rw [hc] at this
    cases this

/-- A free block takes in the free block behind it. -/
theorem join (h : Blocks m (l₁ ++ b :: c :: l₂)) (hb : b.free = true) (hc : c.free = true) :
    ∃ m', m.tryToJoin (some b.addr) = (true, m') ∧ m'.heap = m.heap ∧ m'.init = m.init ∧
      Blocks m' (l₁ ++ b.merge sizeofBlockHeader c :: l₂) := by
  have hp := h.pool_free hb
  rw [frees_cons_free hc] at hp
  obtain ⟨m', he, hheap, hinit, h'⟩ := hp.join hb hc
  refine ⟨m', he, hheap, hinit, of_pool ?_⟩
  rw [frees_append, frees_cons_free (show (b.merge sizeofBlockHeader c).free = true from hb)]
  exact h'

end Blocks

/-- The calls of `tryToUnmap` for a block of `size` bytes at `addr`. -/
def unmapCalls (addr size : Nat) : List MmuCall :=
  let start := if addr % blockSize ≠ 0 then pageBegin addr + blockSize else addr
  let end_ := sub64 (pageBegin (addr + (size + sizeofBlockHeader))) blockSize
  if end_ < start then [] else [.punmap start end_]

namespace Blocks

theorem tryToUnmap (h : Blocks m l) (hb : b ∈ l) :
    m.tryToUnmap b.addr = unmapCalls b.addr b.size := by
  unfold MemoryAllocator.tryToUnmap unmapCalls
  rw [h.size b hb]

/-- The block with what it takes in behind it. -/
theorem joinRight (h : Blocks m (l₁ ++ b :: l₂)) (hb : b.free = true) (hc : Coalesced l₂) :
    ∃ joined m' b' l₂', m.tryToJoin (some b.addr) = (joined, m') ∧ m'.heap = m.heap ∧
      m'.init = m.init ∧ Blocks m' (l₁ ++ b' :: l₂') ∧ b'.free = true ∧ b'.addr = b.addr ∧
      b.size ≤ b'.size ∧ lives l₂' = lives l₂ ∧ Coalesced l₂' ∧ ∀ c ∈ l₂'.head?, c.free = false := by
  by_cases hl : ∀ c ∈ l₂.head?, c.free = false
  · exact ⟨false, m, b, l₂, h.join_none hb hl, rfl, rfl, h, hb, rfl, Nat.le_refl _, rfl, hc, hl⟩
  · cases l₂ with
    | nil => exact absurd (fun c hc => by cases hc) hl
    | cons c l₂ =>
      have hcf : c.free = true := by simpa using hl
      obtain ⟨m', he, hheap, hinit, h'⟩ := h.join hb hcf
      have hhead : ∀ d ∈ l₂.head?, d.free = false :=
        (Coalesced.around (show Coalesced ([] ++ _ :: _) from hc) hcf).2
      refine ⟨true, m', _, l₂, he, hheap, hinit, h', hb, rfl, ?_, ?_, (coalesced_cons.1 hc).2,
        hhead⟩
      · exact Nat.le_add_right _ _
      · rw [lives_cons_free hcf]

/-- The free block in front of a coalesced block takes it in, if it touches it. -/
theorem joinLeft (h : Blocks m (l₁ ++ b :: l₂)) (hb : b.free = true) (hc₁ : Coalesced l₁)
    (hc₂ : Coalesced l₂) (hl₂ : ∀ c ∈ l₂.head?, c.free = false) :
    ∃ joined m' l' u, m.tryToJoin (frees l₁).getLast? = (joined, m') ∧ m'.heap = m.heap ∧
      m'.init = m.init ∧ Blocks m' l' ∧ Coalesced l' ∧ lives l' = lives l₁ ++ lives l₂ ∧ u ∈ l' ∧
      u.free = true ∧ u.addr ≤ b.addr ∧ b.stop sizeofBlockHeader ≤ u.stop sizeofBlockHeader ∧
      (joined = true → (frees l₁).getLast? = some u.addr) := by
  have hstay : (∀ a ∈ l₁.getLast?, a.free = false) → Coalesced (l₁ ++ b :: l₂) ∧
      lives (l₁ ++ b :: l₂) = lives l₁ ++ lives l₂ := fun hl₁ =>
    ⟨coalesced_insert hc₁ hc₂ hl₁ hl₂, by rw [lives_append, lives_cons_free hb]⟩
  cases hf : (frees l₁).getLast? with
  | none =>
    have hnil : frees l₁ = [] := List.getLast?_eq_none_iff.1 hf
    obtain ⟨hco, hlive⟩ := hstay fun a ha =>
      live_of_frees hnil (List.mem_of_getLast? ha)
    exact ⟨false, m, _, b, rfl, rfl, rfl, h, hco, hlive, by simp, hb, Nat.le_refl _, Nat.le_refl _,
      fun hj => by cases hj⟩
  | some x =>
    obtain ⟨l₃, d, l₄, rfl, hd, rfl, hl₄⟩ := frees_getLast hf
    rcases List.eq_nil_or_concat l₄ with rfl | ⟨l₅, e, rfl⟩
    · -- the block before `b` is free
      rw [List.append_assoc, List.singleton_append] at h
      obtain ⟨m', he, hheap, hinit, h'⟩ := h.join hd hb
      have hstop := (stop_eq_iff (l := []) (by decide) h.tiling).2 rfl
      obtain ⟨hleft, -⟩ := Coalesced.around hc₁ hd
      refine ⟨true, m', _, d.merge sizeofBlockHeader b, he, hheap, hinit, h',
        coalesced_insert (coalesced_append.1 hc₁).1 hc₂ hleft hl₂, ?_, by simp, hd, ?_, ?_,
        fun _ => rfl⟩
      · rw [lives_append, lives_append, lives_cons_free (show (d.merge _ b).free = true from hd),
          lives_cons_free hd]
        simp [lives]
      · simp only [Tile.merge, Tile.stop] at hstop ⊢
        omega
      · simp only [Tile.merge, Tile.stop] at hstop ⊢
        omega
    · rw [List.concat_eq_append] at *
      have he : e.free = false := live_of_frees hl₄ (by simp)
      obtain ⟨hco, hlive⟩ := hstay fun a ha => by
        rw [← List.cons_append, ← List.append_assoc, List.getLast?_concat] at ha
        rw [← Option.some.inj ha, he]
      refine ⟨false, m, _, b, ?_, rfl, rfl, h, hco, hlive, by simp, hb, Nat.le_refl _,
        Nat.le_refl _, fun hj => by cases hj⟩
      rw [List.append_assoc, List.cons_append] at h
      refine h.join_none hd fun c hc => live_of_frees hl₄ ?_
      cases l₅ with
      | nil =>
        obtain rfl : e = c := by simpa using hc
        simp
      | cons f l₅ =>
        obtain rfl : f = c := by simpa using hc
        simp

end Blocks

namespace Blocks

/-- `kmem_free` of a live block. It unmaps within one free block of the new tiling. -/
theorem kmem_free (h : Blocks m (l₁ ++ b :: l₂)) (hb : b.free = false)
    (hpos : ∀ x ∈ frees l₂, b.addr + sizeofBlockHeader < x)
    (hc : Coalesced (l₁ ++ b :: l₂)) (hword : m.heap.endAddr < 2 ^ 64) :
    ∃ calls m' l', m.kmem_free (some (b.addr + sizeofBlockHeader)) = some (0, calls, m') ∧
      m'.heap = m.heap ∧ m'.init = m.init ∧ Blocks m' l' ∧ Coalesced l' ∧
      lives l' = lives l₁ ++ lives l₂ ∧
      ∀ call ∈ calls, ∃ t : Tile, ∃ u ∈ l', u.free = true ∧ u.addr ≤ t.addr ∧
        t.stop sizeofBlockHeader ≤ u.stop sizeofBlockHeader ∧ call ∈ unmapCalls t.addr t.size := by
  obtain ⟨hc₁, hc₂, -⟩ := coalesced_append.1 hc
  have hseek := h.seek hb hpos hword
  have h₁ := h.link hb
  have hu₁ := h₁.tryToUnmap (b := { b with free := true }) (by simp)
  obtain ⟨j₁, m₂, b₂, l₂', he₂, hheap₂, hinit₂, h₂, hb₂, haddr₂, hsize₂, hlive₂, hco₂, hhead₂⟩ :=
    h₁.joinRight rfl (coalesced_cons.1 hc₂).2
  have hu₂ := h₂.tryToUnmap (b := b₂) (by simp)
  obtain ⟨j₂, m₃, l', u, he₃, hheap₃, hinit₃, h₃, hco₃, hlive₃, hu, huf, hulo, huhi, hju⟩ :=
    h₂.joinLeft hb₂ hc₁ hco₂ hhead₂
  have hu₃ := h₃.tryToUnmap hu
  simp only at hu₁ he₂ haddr₂ hsize₂
  rw [haddr₂] at hu₂
  refine ⟨_, m₃, l', kmem_free_eq hseek (Nat.add_sub_cancel _ _) he₂ he₃, ?_, ?_, h₃, hco₃, ?_,
    fun call hcall => ?_⟩
  · rw [hheap₃, hheap₂, (linkBlock_heap _ _).1]
  · rw [hinit₃, hinit₂, (linkBlock_heap _ _).2]
  · rw [hlive₃, hlive₂]
  · unfold Tile.stop at huhi ⊢
    rcases List.mem_append.1 hcall with hcall | hcall
    · rcases List.mem_append.1 hcall with hcall | hcall
      · rw [hu₁] at hcall
        exact ⟨b, u, hu, huf, by omega, by omega, hcall⟩
      · cases j₁ with
        | false => cases hcall
        | true =>
          have hcall' : call ∈ m₂.tryToUnmap b.addr := by simpa [unmapJoined] using hcall
          rw [hu₂] at hcall'
          exact ⟨⟨b.addr, b₂.size, true⟩, u, hu, huf, by simp only; omega, by simp only; omega,
            hcall'⟩
    · cases j₂ with
      | false =>
        have hnil : m₃.unmapJoined false (frees l₁).getLast? = [] := by
          cases (frees l₁).getLast? with
          | none => rfl
          | some x => rfl
        rw [hnil] at hcall
        cases hcall
      | true =>
        rw [hju rfl] at hcall
        have hcall' : call ∈ m₃.tryToUnmap u.addr := by simpa [unmapJoined] using hcall
        rw [hu₃] at hcall'
        exact ⟨u, u, hu, huf, Nat.le_refl _, Nat.le_refl _, hcall'⟩

end Blocks

end MemoryAllocator

end SlabKernel
