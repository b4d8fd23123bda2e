import SlabKernel.Buddy.Tiling

/-!
# The layout `buddyInit` computes

The bitmap index, the alignment and the end of the region are computed from `MAX_ORDER`, which
`getBlockNum` computes from the heap.

* `geometry_iff`: `getIndex` shifts by `MAX_ORDER` and `pageAlign` rounds to `1 << MAX_ORDER` where
  the page shift, 12, is meant. The pairs of blocks have bits of their own only if `MAX_ORDER = 12`
  (or 0, when there is no pair).
* `reserves_iff`: `buddyInit` compares the end of the region with the end of the heap before it
  rounds it up, and reserves `blockNum` blocks while the free block has `1 << MAX_ORDER`.
-/

namespace SlabKernel.Buddy

open Dyadic

variable {heap heap' : HeapBounds} {b : Buddy} {blockNum : Int} {space N : Nat}

/-! ## `MAX_ORDER` -/

/-- `numOfBlocks` of `getBlockNum`, as an unsigned number. -/
def numOfBlocks (heap : HeapBounds) : Nat :=
  (heap.endAddr - heap.startAddr) * 125 / 1000 / blockSize % 2 ^ 32

theorem greaterPowerOfTwo_order {x n value order value' order' : Nat}
    (hv : value = 2 ^ order % 2 ^ 64) (hlow : order = 0 ∨ 64 < order ∨ 2 ^ (order - 1) ≤ x)
    (h : greaterPowerOfTwo x n value order = some (value', order')) :
    order' < 64 ∧ x < 2 ^ order' ∧ (order' = 0 ∨ 2 ^ (order' - 1) ≤ x) := by
  induction n generalizing value order with
  | zero => cases h
  | succ n ih =>
    unfold greaterPowerOfTwo at h
    have hsmall : order < 64 → 2 ^ order % 2 ^ 64 = 2 ^ order := fun hlt =>
      Nat.mod_eq_of_lt (Nat.pow_lt_pow_right (by decide) hlt)
    split at h
    · rename_i hx
      refine ih ?_ ?_ h
      · rw [hv, Nat.mod_mul_mod, ← Nat.pow_succ]
      · rcases Nat.lt_or_ge order 64 with hlt | hge
        · rw [hv, hsmall hlt] at hx
          exact .inr (.inr (by simpa using hx))
        · exact .inr (.inl (by omega))
    · rename_i hx
      simp only [Option.some.injEq, Prod.mk.injEq] at h
      obtain ⟨-, rfl⟩ := h
      -- a value that has wrapped to 0 never ends the loop
      have hlt : order < 64 := by
        by_contra hge
        have : 2 ^ order % 2 ^ 64 = 0 :=
          Nat.mod_eq_zero_of_dvd (Nat.pow_dvd_pow 2 (by omega))
        omega
      rw [hv, hsmall hlt] at hx
      refine ⟨hlt, by omega, ?_⟩
      rcases hlow with h0 | h0 | h0
      · exact .inl h0
      · omega
      · exact .inr h0

/-- `MAX_ORDER` is the least order whose block is larger than an eighth of the heap. -/
theorem getBlockNum_order (h : getBlockNum heap = some (blockNum, N)) :
    numOfBlocks heap < 2 ^ N ∧ (N = 0 ∨ 2 ^ (N - 1) ≤ numOfBlocks heap) := by
  unfold getBlockNum at h
  simp only [Option.bind_eq_bind, Option.bind_eq_some_iff, pure, Option.some.injEq] at h
  obtain ⟨⟨value, order⟩, hg, he⟩ := h
  simp only [Prod.mk.injEq] at he
  obtain ⟨-, rfl⟩ := he
  obtain ⟨h64, hlt, hle⟩ := greaterPowerOfTwo_order (by decide) (.inl rfl) hg
  have hpow : 2 ^ order ≤ 2 ^ 63 := Nat.pow_le_pow_right (by decide) (by omega)
  unfold numOfBlocks
  generalize (heap.endAddr - heap.startAddr) * 125 / 1000 / blockSize = q at *
  -- a negative number of blocks would be a size of at least `2 ^ 63`
  have hq : (toInt32 (q : Nat) % 2 ^ 64).toNat = q % 2 ^ 32 := by
    unfold toInt32 at *
    rw [Int.bmod_def] at *
    split at hlt <;> rename_i hc
    · rw [if_pos hc]
      omega
    · exfalso
      omega
  rw [hq] at hlt hle
  exact ⟨hlt, hle⟩

theorem getBlockNum_order_iff (h : getBlockNum heap = some (blockNum, N)) {k : Nat} :
    N = k + 1 ↔ 2 ^ k ≤ numOfBlocks heap ∧ numOfBlocks heap < 2 ^ (k + 1) := by
  obtain ⟨hlt, hle⟩ := getBlockNum_order h
  constructor
  · intro he
    subst he
    exact ⟨hle.resolve_left (Nat.succ_ne_zero k), hlt⟩
  · intro hand
    obtain ⟨h1, h2⟩ := hand
    have hk : k < N := (Nat.pow_lt_pow_iff_right (by decide)).1 (Nat.lt_of_le_of_lt h1 hlt)
    rcases hle with h0 | h0
    · omega
    · have : N - 1 < k + 1 := (Nat.pow_lt_pow_iff_right (by decide)).1 (Nat.lt_of_le_of_lt h0 h2)
      omega

theorem getBlockNum_zero_iff (h : getBlockNum heap = some (blockNum, N)) :
    N = 0 ↔ numOfBlocks heap = 0 := by
  obtain ⟨hlt, hle⟩ := getBlockNum_order h
  constructor
  · intro he
    subst he
    omega
  · intro h0
    have := Nat.two_pow_pos (N - 1)
    omega

/-! ## Rounding -/

theorem pageAlign_le_iff {a c : Nat} : pageAlign N a ≤ c ↔ a ≤ c / 2 ^ N * 2 ^ N := by
  have hpos := Nat.two_pow_pos N
  unfold pageAlign
  rw [← Nat.le_div_iff_mul_le hpos, ← Nat.lt_succ_iff, Nat.div_lt_iff_lt_mul hpos,
    Nat.succ_mul]
  omega

theorem le_pageAlign_iff {q a : Nat} : q * 2 ^ N ≤ pageAlign N a ↔ q * 2 ^ N < a + 2 ^ N := by
  have hpos := Nat.two_pow_pos N
  unfold pageAlign
  rw [Nat.mul_le_mul_right_iff hpos, Nat.le_div_iff_mul_le hpos]
  omega

theorem le_pageAlign (a : Nat) : a ≤ pageAlign N a := by
  have hpos := Nat.two_pow_pos N
  have := pageAlign_le_iff.1 (Nat.le_refl (pageAlign N a))
  exact this.trans (Nat.div_mul_le_self _ _)

/-- The distance to the next multiple of `2 ^ N`. -/
theorem pageAlign_eq (a : Nat) : pageAlign N a = a + (2 ^ N - a % 2 ^ N) % 2 ^ N := by
  have hpos := Nat.two_pow_pos N
  have hlt := Nat.mod_lt a hpos
  have hdiv := Nat.div_add_mod' a (2 ^ N)
  unfold pageAlign
  rcases Nat.eq_zero_or_pos (a % 2 ^ N) with h0 | h0
  · rw [h0, Nat.sub_zero, Nat.mod_self, Nat.add_zero]
    have : (a + (2 ^ N - 1)) / 2 ^ N = a / 2 ^ N :=
      (Nat.div_eq_iff hpos).2 ⟨by omega, by omega⟩
    rw [this]
    omega
  · rw [Nat.mod_eq_of_lt (a := 2 ^ N - a % 2 ^ N) (by omega)]
    have : (a + (2 ^ N - 1)) / 2 ^ N = a / 2 ^ N + 1 :=
      (Nat.div_eq_iff hpos).2 ⟨by rw [Nat.succ_mul]; omega, by rw [Nat.succ_mul]; omega⟩
    rw [this, Nat.succ_mul]
    omega

/-- The fields an accepted `buddyInit` sets. -/
theorem buddyInit_fields (h : buddyInit heap N space blockNum = some (b, heap')) :
    b.maxOrder = N ∧ b.blocksAddr = space ∧ b.bitmapAddr = space + (N + 1) * 8 ∧
    b.blocks N = some b.kernelStartAddr ∧
    b.kernelStartAddr = pageAlign N (space + ((N + 1) * 8 + bitmapBytes N)) ∧
    b.kernelEndAddr = pageAlign N ((space : Int) + toInt32 (blockNum * blockSize) +
      ((N + 1) * 8 + bitmapBytes N : Nat)).toNat ∧ heap'.startAddr = b.kernelEndAddr := by
  unfold buddyInit at h
  split at h
  · cases h
  · simp only at h
    split at h
    · cases h
    · simp only [Option.some.injEq, Prod.mk.injEq] at h
      obtain ⟨rfl, rfl⟩ := h
      exact ⟨rfl, rfl, rfl, by simp, rfl, rfl, rfl⟩

/-! ## The bitmap of every heap -/

/-- The pairs of the region have bits of their own, inside the bitmap. -/
structure Geometry (b : Buddy) : Prop where
  aligned : b.kernelStartAddr % blockSize = 0
  index : ∀ j k, j < b.maxOrder → k < b.maxOrder → ∀ i < 2 ^ (b.maxOrder - j),
    ∀ i' < 2 ^ (b.maxOrder - k),
      (b.getIndex (b.blockAddr j i) j = b.getIndex (b.blockAddr k i') k ↔
        j = k ∧ (i' = i ∨ i' = sib i))
  bitmap : ∀ j, j < b.maxOrder → ∀ i < 2 ^ (b.maxOrder - j),
    b.getIndex (b.blockAddr j i) j / 8 < bitmapBytes b.maxOrder

/-- With `MAX_ORDER = 12` the page shift and the maximal order coincide. -/
theorem geometry_twelve (hN : b.maxOrder = 12) (hs : b.kernelStartAddr % blockSize = 0) :
    Geometry b := by
  have hidx : ∀ j i, b.getIndex (b.blockAddr j i) j = pairIndex j (i / 2) := fun j i => by
    rw [blockAddr_eq, getIndex_addrOf hN]
  refine ⟨hs, ?_, ?_⟩
  · rw [hN]
    intro j k hj hk i hi i' hi'
    rw [hidx, hidx]
    constructor
    · intro h
      obtain ⟨rfl, he⟩ := pairIndex_inj hj hk (pair_lt hj hi) (pair_lt hk hi') h
      exact ⟨rfl, half_eq_iff.1 he.symm⟩
    · intro hx
      obtain ⟨rfl, he⟩ := hx
      rw [half_eq_iff.2 he]
  · rw [hN]
    intro j hj i hi
    have h1 := pairIndex_lt hj (pair_lt hj hi)
    have h2 : bitmapBytes 12 = 512 := by decide
    rw [hidx, h2]
    omega

/-- The index of a block of order 0. -/
theorem getIndex_order_zero (b : Buddy) (i : Nat) :
    b.getIndex (b.blockAddr 0 i) 0 = i * 2 ^ 12 / 2 ^ (b.maxOrder + 1) := by
  unfold getIndex blockAddr
  simp only [Nat.sub_zero, Nat.sub_self, Nat.zero_add, Nat.add_sub_cancel_left, Nat.add_zero,
    Nat.shiftRight_eq_div_pow, Nat.pow_zero, Nat.one_mul, blockSize]
  norm_num

/-- Below 12 the first two pages, a buddy pair, have different bits. -/
theorem not_geometry_of_lt (h0 : b.maxOrder ≠ 0) (h : b.maxOrder < 12) : ¬ Geometry b := by
  intro hg
  have hpos : 0 < b.maxOrder := Nat.pos_of_ne_zero h0
  have htwo : 2 ≤ 2 ^ b.maxOrder := Nat.le_self_pow h0 2
  have he := (hg.index 0 0 hpos hpos 0 (by rw [Nat.sub_zero]; omega) 1
    (by rw [Nat.sub_zero]; omega)).2 ⟨rfl, .inr (by decide)⟩
  rw [getIndex_order_zero, getIndex_order_zero, Nat.zero_mul, Nat.zero_div, Nat.one_mul,
    Nat.pow_div (by omega) (by decide)] at he
  exact absurd he.symm (Nat.two_pow_pos _).ne'

/-- Above 12 the first and the third page share a bit. -/
theorem not_geometry_of_gt (h : 12 < b.maxOrder) : ¬ Geometry b := by
  intro hg
  have hfour : 2 ^ 2 ≤ 2 ^ b.maxOrder := Nat.pow_le_pow_right (by decide) (by omega)
  have hsmall : 2 ^ 14 ≤ 2 ^ (b.maxOrder + 1) := Nat.pow_le_pow_right (by decide) (by omega)
  have he : b.getIndex (b.blockAddr 0 0) 0 = b.getIndex (b.blockAddr 0 2) 0 := by
    rw [getIndex_order_zero, getIndex_order_zero, Nat.zero_mul, Nat.zero_div,
      Nat.div_eq_of_lt (by omega)]
  have := (hg.index 0 0 (by omega) (by omega) 0 (by rw [Nat.sub_zero]; omega) 2
    (by rw [Nat.sub_zero]; omega)).1 he
  exact absurd this.2 (by decide)

/-- **Buddy geometry.** After `getBlockNum` and `buddyInit` have succeeded, the bitmap fits the
region iff an eighth of the heap has from 2048 to 4095 pages, so that `MAX_ORDER` is 12, or less
than one page, so that there is no pair, with the single block at the start of a page. -/
theorem geometry_iff (hn : getBlockNum heap = some (blockNum, N))
    (hinit : buddyInit heap N heap.startAddr blockNum = some (b, heap')) :
    Geometry b ↔ (2048 ≤ numOfBlocks heap ∧ numOfBlocks heap < 4096) ∨
      (numOfBlocks heap = 0 ∧ (heap.startAddr + 8) % blockSize = 0) := by
  obtain ⟨hN, -, -, -, hs, -⟩ := buddyInit_fields hinit
  have h12 := getBlockNum_order_iff hn (k := 11)
  have h0 := getBlockNum_zero_iff hn
  rw [← h0, ← show 2 ^ 11 = 2048 from rfl, ← show 2 ^ 12 = 4096 from rfl, ← h12]
  rcases Nat.lt_trichotomy N 12 with hlt | rfl | hgt
  · rcases Nat.eq_zero_or_pos N with rfl | hpos
    · -- without pairs only the alignment is left
      have hb : bitmapBytes 0 = 0 := by decide
      have hs' : b.kernelStartAddr = heap.startAddr + 8 := by
        rw [hs, hb, pageAlign]
        omega
      constructor
      · intro hg
        exact .inr ⟨rfl, by rw [← hs']; exact hg.aligned⟩
      · rintro (h | ⟨-, h⟩)
        · cases h
        · refine ⟨by rw [hs']; exact h, ?_, ?_⟩ <;> rw [hN] <;> intro j
          · intro k hj
            exact absurd hj (Nat.not_lt_zero j)
          · intro hj
            exact absurd hj (Nat.not_lt_zero j)
    · constructor
      · intro hg
        exact absurd hg (not_geometry_of_lt (by omega) (by omega))
      · rintro (h | ⟨h, -⟩) <;> omega
  · refine iff_of_true (geometry_twelve hN ?_) (.inl rfl)
    rw [hs, pageAlign, show (2 : Nat) ^ 12 = blockSize from rfl, Nat.mul_mod_left]
  · constructor
    · intro hg
      exact absurd hg (not_geometry_of_gt (by omega))
    · rintro (h | ⟨h, -⟩) <;> omega

/-- A machine with 256 MB. -/
def heap256 : HeapBounds := ⟨0x80010000, 0x90000000⟩

theorem geometry_iff_heap128 : ∃ b heap',
    getBlockNum heap128 = some (4096, 12) ∧
    buddyInit heap128 12 heap128.startAddr 4096 = some (b, heap') ∧ Geometry b := by
  refine ⟨_, _, by decide, rfl, (geometry_iff
    (show getBlockNum heap128 = some (4096, 12) by decide) rfl).2 (.inl (by decide))⟩

/-- On the larger heap the first and the third page have the bit 0 both. -/
theorem geometry_fails : ¬ ∀ heap heap' blockNum N b, getBlockNum heap = some (blockNum, N) →
    buddyInit heap N heap.startAddr blockNum = some (b, heap') → Geometry b := by
  intro h
  exact not_geometry_of_gt (by decide) (h heap256 _ 8192 13 _ (by decide) rfl)

/-! ## What an accepted `buddyInit` reserves -/

/-- The metadata lies in front of the region, the initial block in it, and it in the heap. -/
structure Reserves (heap heap' : HeapBounds) (space : Nat) (b : Buddy) : Prop where
  blocks : space ≤ b.blocksAddr ∧ b.blocksAddr + (b.maxOrder + 1) * 8 ≤ b.kernelStartAddr
  bitmap : space ≤ b.bitmapAddr ∧ b.bitmapAddr + bitmapBytes b.maxOrder ≤ b.kernelStartAddr
  block : ∃ p, b.blocks b.maxOrder = some p ∧ b.kernelStartAddr ≤ p ∧
    p + 2 ^ b.maxOrder * blockSize ≤ b.kernelEndAddr
  finish : heap'.startAddr = b.kernelEndAddr ∧ b.kernelEndAddr ≤ heap.endAddr

/-- **An accepted `buddyInit`** reserves what it manages iff the `blockNum * BLOCK_SIZE` bytes asked
for, rounded up, hold the block of order `MAX_ORDER` behind the gap in front of the region, and they
end below the last multiple of `1 << MAX_ORDER` in the heap. -/
theorem reserves_iff (hinit : buddyInit heap N space blockNum = some (b, heap')) :
    Reserves heap heap' space b ↔
      ((2 ^ N - (space + ((N + 1) * 8 + bitmapBytes N)) % 2 ^ N) % 2 ^ N + 2 ^ N * blockSize : Nat) <
        toInt32 (blockNum * blockSize) + (2 ^ N : Nat) ∧
      (space : Int) + toInt32 (blockNum * blockSize) + ((N + 1) * 8 + bitmapBytes N : Nat) ≤
        (heap.endAddr / 2 ^ N * 2 ^ N : Nat) := by
  obtain ⟨hN, hblocks, hbitmap, hblock, hs, he, hheap⟩ := buddyInit_fields hinit
  have hpos := Nat.two_pow_pos N
  have hgap := pageAlign_eq (N := N) (space + ((N + 1) * 8 + bitmapBytes N))
  generalize hp : (2 ^ N - (space + ((N + 1) * 8 + bitmapBytes N)) % 2 ^ N) % 2 ^ N = p at *
  generalize hw : toInt32 (blockNum * (blockSize : Nat)) = w at *
  -- the block fits iff the end, before it is rounded, is above the last page but one of the block
  obtain ⟨q, hq⟩ : ∃ q, b.kernelStartAddr = q * 2 ^ N := ⟨_, hs⟩
  have hfit : b.kernelStartAddr + 2 ^ N * blockSize ≤ b.kernelEndAddr ↔
      (p + 2 ^ N * blockSize : Nat) < w + (2 ^ N : Nat) := by
    have hmul : b.kernelStartAddr + 2 ^ N * blockSize = (q + blockSize) * 2 ^ N := by
      rw [hq, Nat.add_mul, Nat.mul_comm blockSize]
    have hstart : b.kernelStartAddr = space + ((N + 1) * 8 + bitmapBytes N) + p := by rw [hs, hgap]
    have hbig : 2 ^ N ≤ 2 ^ N * blockSize := Nat.le_mul_of_pos_right _ (by decide)
    rw [hmul, he, le_pageAlign_iff, ← hmul]
    omega
  have hend : b.kernelEndAddr ≤ heap.endAddr ↔
      (space : Int) + w + ((N + 1) * 8 + bitmapBytes N : Nat) ≤
        (heap.endAddr / 2 ^ N * 2 ^ N : Nat) := by
    rw [he, pageAlign_le_iff]
    omega
  rw [← hfit, ← hend]
  constructor
  · intro hx
    obtain ⟨-, -, ⟨p', h₁, -, h₂⟩, -, h₃⟩ := hx
    rw [hN, hblock, Option.some.injEq] at h₁
    rw [hN, ← h₁] at h₂
    exact ⟨h₂, h₃⟩
  · intro hx
    obtain ⟨h₁, h₂⟩ := hx
    have hle := le_pageAlign (N := N) (space + ((N + 1) * 8 + bitmapBytes N))
    rw [← hs] at hle
    refine ⟨?_, ?_, ⟨b.kernelStartAddr, by rw [hN, hblock], Nat.le_refl _, by rw [hN]; exact h₁⟩,
      hheap, h₂⟩
    · rw [hblocks, hN]
      omega
    · rw [hbitmap, hN]
      omega

/-- On the heap of `kmem_init` the condition holds. -/
theorem reserves_iff_heap128 : ∃ b heap',
    buddyInit heap128 12 heap128.startAddr 4096 = some (b, heap') ∧
    Reserves heap128 heap' heap128.startAddr b :=
  ⟨_, _, rfl, (reserves_iff
    (show buddyInit heap128 12 heap128.startAddr 4096 = some _ from rfl)).2 (by decide)⟩

/-- One block is asked for: 4096 pages are put on the list. -/
theorem reserves_fails : ¬ ∀ heap heap' space blockNum blockNum' N b,
    getBlockNum heap = some (blockNum', N) → heap.startAddr ≤ space → space < heap.endAddr →
    buddyInit heap N space blockNum = some (b, heap') → Reserves heap heap' space b := by
  intro h
  obtain ⟨p, hp, -, hle⟩ :=
    (h heap128 _ heap128.startAddr 1 4096 12 _ (by decide) (by decide) (by decide) rfl).block
  obtain rfl := Option.some.inj hp
  exact absurd hle (by decide)

end SlabKernel.Buddy
