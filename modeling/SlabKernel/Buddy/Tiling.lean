import Mathlib.Data.List.Perm.Subperm
import Mathlib.Logic.Basic
import SlabKernel.Buddy.Steps
import SlabKernel.Lib.Run

/-!
# Runs of the buddy allocator

A client calls `alloc` with any order and `free` on its live blocks. `Inv b live`: the free lists
of `b` and the live blocks represent one state of `Dyadic.State 12`. `buddyInit` establishes it
(`Inv.init`), `alloc` and `free` keep it (`Inv.alloc`, `Inv.free`), so every run does.

* `buddy_tiling`: lists and live blocks partition the region.
* `buddy_exact`: the bitmap is exact, free memory is maximally coalesced, and `alloc` fails only
  when no aligned run is left.
-/

namespace SlabKernel.Buddy

open PtrList Dyadic Runs

/-! ## The client -/

/-- The allocator and the live blocks: address and order. -/
structure Client where
  buddy : Buddy
  live : List (Nat × Nat)

/-- A call of the client. -/
inductive Call
  | alloc (order : Int)
  | free (addr order : Nat)

/-- A call executed by the allocator, the live blocks kept up. -/
def Client.step (s : Client) : Call → Option Client
  | .alloc order =>
    match s.buddy.alloc order with
    | (none, b) => some { s with buddy := b }
    | (some p, b) => some { buddy := b, live := (p, order.toNat) :: s.live }
  | .free addr order =>
    (s.buddy.free (some addr) order).map fun r =>
      { buddy := r.2, live := s.live.erase (addr, order) }

/-- Only live blocks are freed, with the order they were allocated with. -/
def Client.Ok (s : Client) : Call → Prop
  | .alloc _ => True
  | .free addr order => (addr, order) ∈ s.live

/-! ## The invariant -/

/-- The free lists and the live blocks represent one coalesced tiling. -/
def Inv (b : Buddy) (live : List (Nat × Nat)) : Prop :=
  live.Nodup ∧ ∃ H, Rep b H ∧
    ∀ p, p ∈ live ↔ ∃ i, (p.2, i) ∈ H.live ∧ p.1 = b.addrOf (p.2, i)

variable {b b' : Buddy} {live : List (Nat × Nat)} {k : Nat}

theorem Inv.perm {live' : List (Nat × Nat)} (h : Inv b live) (hp : live.Perm live') :
    Inv b live' := by
  obtain ⟨hnd, H, hr, hm⟩ := h
  exact ⟨hp.nodup_iff.1 hnd, H, hr, fun p => hp.mem_iff.symm.trans (hm p)⟩

theorem Inv.order (h : Inv b live) : b.maxOrder = 12 := by
  obtain ⟨-, H, hr, -⟩ := h
  exact hr.order

theorem Inv.init {heap heap' : HeapBounds} {space : Nat} {blockNum : Int}
    (h : buddyInit heap 12 space blockNum = some (b, heap')) : Inv b [] := by
  unfold buddyInit at h
  split at h
  · cases h
  · simp only at h
    split at h
    · cases h
    · simp only [Option.some.injEq, Prod.mk.injEq] at h
      obtain ⟨rfl, -⟩ := h
      refine ⟨List.nodup_nil, State.init 12, ⟨rfl, fun k hk => ?_, ⟨fun k j hk hj => ?_, fun n _ => ?_⟩,
        State.coalesced_init⟩, fun p => by simp [State.init]⟩
      · by_cases h12 : k = 12
        · subst h12
          refine ⟨[pageAlign 12 (space + ((12 + 1) * 8 + bitmapBytes 12))], ⟨by simp, by simp⟩,
            fun a => ?_⟩
          simp [State.init, addrOf]
        · refine ⟨[], by simp [h12], fun a => ?_⟩
          simp [State.init, h12]
      · have h1 : ∀ m, (k, m) ∉ (State.init 12).free := fun m hm => by
          have := congrArg Prod.fst (show (k, m) = (12, 0) from hm)
          simp only at this
          omega
        simp [bit, h1]
      · simp [bit]

/-- `alloc` fails and changes nothing, or adds a new live block. -/
theorem Inv.alloc (h : Inv b live) (order : Int) :
    b.alloc order = (none, b) ∨
    ∃ p b', b.alloc order = (some p, b') ∧ SameGeom b b' ∧ 0 ≤ order ∧ order ≤ 12 ∧
      Inv b' ((p, order.toNat) :: live) := by
  obtain ⟨hnd, H, hr, hm⟩ := h
  by_cases ho : order < 0 ∨ order > b.maxOrder
  · left
    unfold Buddy.alloc
    rw [if_pos ho]
  · rw [hr.order] at ho
    rcases alloc_rep hr (show 0 ≤ order by omega) (by omega) with ⟨he, -⟩ |
      ⟨H', i, hp, hg, hr', hnew, hlive⟩
    · exact .inl he
    · refine .inr ⟨_, _, Prod.ext hp rfl, hg, by omega, by omega, ?_, H', hr', fun p => ?_⟩
      · refine List.nodup_cons.2 ⟨fun hmem => ?_, hnd⟩
        obtain ⟨j, hj, ha⟩ := (hm _).1 hmem
        exact hnew (addrOf_inj ha ▸ hj)
      · simp only [List.mem_cons, hm, hlive, Set.mem_insert_iff, hg.addrOf]
        constructor
        · rintro (rfl | ⟨j, hj, ha⟩)
          · exact ⟨i, .inl rfl, rfl⟩
          · exact ⟨j, .inr hj, ha⟩
        · rintro ⟨j, hj | hj, ha⟩
          · simp only [Prod.mk.injEq] at hj
            obtain ⟨h1, rfl⟩ := hj
            exact .inl (Prod.ext (h1 ▸ ha) h1)
          · exact .inr ⟨j, hj, ha⟩

/-- `free` of a live block succeeds and takes it off the live blocks. -/
theorem Inv.free {addr order : Nat} (h : Inv b live) (hmem : (addr, order) ∈ live) :
    ∃ b', b.free (some addr) order = some (0, b') ∧ SameGeom b b' ∧
      Inv b' (live.erase (addr, order)) := by
  obtain ⟨hnd, H, hr, hm⟩ := h
  obtain ⟨i, hi, ha⟩ := (hm _).1 hmem
  simp only at hi ha
  subst ha
  obtain ⟨L, hL⟩ := hr.lists.exists_freeLists
  obtain ⟨b', H', he, hg, hr', hlive, -⟩ := free_rep hr hL hi
  refine ⟨b', he, hg, hnd.erase _, H', hr', fun p => ?_⟩
  simp only [hnd.mem_erase_iff, hm, hlive, hg.addrOf, Set.mem_sdiff, Set.mem_singleton_iff]
  constructor
  · intro hx
    obtain ⟨hne, j, hj, ha⟩ := hx
    refine ⟨j, ⟨hj, fun hc => hne (Prod.ext ?_ (congrArg Prod.fst hc))⟩, ha⟩
    rw [ha, hc]
  · intro hx
    obtain ⟨j, ⟨hj, hne⟩, ha⟩ := hx
    refine ⟨fun hp => hne ?_, j, hj, ha⟩
    rw [hp] at ha ⊢
    rw [addrOf_inj ha]

/-- A further block is taken. -/
theorem Inv.take {own others : List (Nat × Nat)} (h : Inv b (own ++ others)) (order : Nat) :
    SameGeom b (b.alloc order).2 ∧
      Inv (b.alloc order).2 (own ++ ((b.alloc order).1.toList.map (·, order) ++ others)) := by
  rcases h.alloc order with hb | ⟨p, b', hb, hg, -, -, hinv⟩
  · rw [hb]
    exact ⟨.rfl, h⟩
  · rw [hb]
    exact ⟨hg, hinv.perm List.perm_middle.symm⟩

/-- One of the blocks of others is given back. -/
theorem Inv.give {own others : List (Nat × Nat)} {addr order : Nat} (h : Inv b (own ++ others))
    (ho : (addr, order) ∈ others) :
    ∃ b', b.free (some addr) order = some (0, b') ∧ SameGeom b b' ∧
      Inv b' (own ++ others.erase (addr, order)) := by
  obtain ⟨b', hb, hg, hinv⟩ := h.free (List.mem_append_right _ ho)
  have hnot : (addr, order) ∉ own := fun hm => (List.nodup_append.1 h.1).2.2 _ hm _ ho rfl
  rw [List.erase_append_right _ hnot] at hinv
  exact ⟨b', hb, hg, hinv⟩

theorem Client.step_inv {s s' : Client} {c : Call} (h : Inv s.buddy s.live) (hok : s.Ok c)
    (hs : s.step c = some s') : SameGeom s.buddy s'.buddy ∧ Inv s'.buddy s'.live := by
  cases c with
  | alloc order =>
    unfold Client.step at hs
    rcases h.alloc order with he | ⟨p, b', he, hg, -, -, hi⟩
    · simp only [he, Option.some.injEq] at hs
      subst hs
      exact ⟨.rfl, h⟩
    · simp only [he, Option.some.injEq] at hs
      subst hs
      exact ⟨hg, hi⟩
  | free addr order =>
    obtain ⟨b', he, hg, hi⟩ := h.free hok
    simp only [Client.step, he, Option.map_some, Option.some.injEq] at hs
    subst hs
    exact ⟨hg, hi⟩

theorem Client.run_inv {s s' : Client} {calls : List Call} (h : Inv s.buddy s.live)
    (hrun : Run Client.Ok Client.step s calls s') :
    SameGeom s.buddy s'.buddy ∧ Inv s'.buddy s'.live := by
  refine hrun.inv (fun s' => SameGeom s.buddy s'.buddy ∧ Inv s'.buddy s'.live) ?_ ⟨.rfl, h⟩
  intro s₁ c s₂ h₁ hok hs
  have := step_inv h₁.2 hok hs
  exact ⟨h₁.1.trans this.1, this.2⟩

theorem Client.step_some {s : Client} {c : Call} (h : Inv s.buddy s.live) (hok : s.Ok c) :
    ∃ s', s.step c = some s' := by
  cases c with
  | alloc order =>
    unfold Client.step
    rcases h.alloc order with he | ⟨p, b', he, -⟩ <;> simp [he]
  | free addr order =>
    obtain ⟨b', he, -⟩ := h.free hok
    simp [Client.step, he]

/-! ## The region -/

/-- `greaterPowerOfTwo` doubles `value` once for each order. -/
theorem greaterPowerOfTwo_value {x n value order value' order' : Nat} (hv : value < 2 ^ 64)
    (h : greaterPowerOfTwo x n value order = some (value', order')) :
    order ≤ order' ∧ value' = value * 2 ^ (order' - order) % 2 ^ 64 := by
  induction n generalizing value order with
  | zero => cases h
  | succ n ih =>
    unfold greaterPowerOfTwo at h
    split at h
    · obtain ⟨h1, h2⟩ := ih (Nat.mod_lt _ (by decide)) h
      have hd : 2 ^ (order' - order) = 2 * 2 ^ (order' - (order + 1)) := by
        rw [← Nat.pow_succ', Nat.succ_eq_add_one,
          show order' - (order + 1) + 1 = order' - order by omega]
      refine ⟨by omega, ?_⟩
      rw [h2, hd, Nat.mod_mul_mod, Nat.mul_assoc]
    · simp only [Option.some.injEq, Prod.mk.injEq] at h
      obtain ⟨rfl, rfl⟩ := h
      refine ⟨Nat.le_refl _, ?_⟩
      rw [Nat.sub_self, Nat.pow_zero, Nat.mul_one, Nat.mod_eq_of_lt hv]

theorem getBlockNum_eq {heap : HeapBounds} {blockNum : Int}
    (h : getBlockNum heap = some (blockNum, 12)) : blockNum = 4096 := by
  unfold getBlockNum at h
  simp only [Option.bind_eq_bind, Option.bind_eq_some_iff, pure, Option.some.injEq] at h
  obtain ⟨⟨value, order⟩, hg, he⟩ := h
  simp only [Prod.mk.injEq] at he
  obtain ⟨rfl, rfl⟩ := he
  obtain ⟨-, rfl⟩ := greaterPowerOfTwo_value (by decide) hg
  decide

/-- The region that is reserved for `getBlockNum` blocks is the region that is managed. -/
theorem buddyInit_region {heap heap' : HeapBounds} {space : Nat}
    (h : buddyInit heap 12 space 4096 = some (b, heap')) :
    b.kernelEndAddr = b.kernelStartAddr + 2 ^ 12 * blockSize := by
  unfold buddyInit at h
  have h1 : toInt32 (4096 * (blockSize : Nat)) = 16777216 := by decide
  have h2 : bitmapBytes 12 = 512 := by decide
  simp only [h1, h2] at h
  split at h
  · cases h
  · split at h
    · cases h
    · simp only [Option.some.injEq, Prod.mk.injEq] at h
      obtain ⟨rfl, -⟩ := h
      simp only [pageAlign, blockSize]
      omega

/-- The memory of the allocator starts a page. -/
theorem buddyInit_start {heap heap' : HeapBounds} {space : Nat} {blockNum : Int}
    (h : buddyInit heap 12 space blockNum = some (b, heap')) :
    blockSize ∣ b.kernelStartAddr := by
  unfold buddyInit at h
  split at h
  · cases h
  · simp only at h
    split at h
    · cases h
    · simp only [Option.some.injEq, Prod.mk.injEq] at h
      obtain ⟨rfl, -⟩ := h
      exact Nat.dvd_mul_left _ _

/-! ## The partition -/

/-- The first unit of a block's `i`-th position, in bytes. -/
theorem covers_byte {c : Block} {x : Nat} (hx : b.kernelStartAddr ≤ x) :
    Covers c ((x - b.kernelStartAddr) / blockSize) ↔
      b.addrOf c ≤ x ∧ x < b.addrOf c + 2 ^ c.1 * blockSize := by
  obtain ⟨k, i⟩ := c
  rw [covers_iff]
  unfold addrOf blockSize
  simp only [Nat.add_mul, Nat.one_mul]
  omega

/-- Two blocks are disjoint in bytes iff they share no unit. -/
theorem addrOf_apart {c d : Block} :
    (b.addrOf c + 2 ^ c.1 * blockSize ≤ b.addrOf d ∨
      b.addrOf d + 2 ^ d.1 * blockSize ≤ b.addrOf c) ↔ ∀ x, Covers c x → ¬ Covers d x := by
  obtain ⟨k, i⟩ := c
  obtain ⟨k', j⟩ := d
  have hk := Nat.two_pow_pos k
  have hk' := Nat.two_pow_pos k'
  have h1 : (i + 1) * 2 ^ k = i * 2 ^ k + 2 ^ k := by rw [Nat.add_mul, Nat.one_mul]
  have h2 : (j + 1) * 2 ^ k' = j * 2 ^ k' + 2 ^ k' := by rw [Nat.add_mul, Nat.one_mul]
  have hbytes : (b.addrOf (k, i) + 2 ^ k * blockSize ≤ b.addrOf (k', j) ∨
      b.addrOf (k', j) + 2 ^ k' * blockSize ≤ b.addrOf (k, i)) ↔
      ((i + 1) * 2 ^ k ≤ j * 2 ^ k' ∨ (j + 1) * 2 ^ k' ≤ i * 2 ^ k) := by
    unfold addrOf blockSize
    simp only
    omega
  rw [hbytes]
  constructor
  · intro h x hx hx'
    rw [covers_iff] at hx hx'
    omega
  · intro h
    -- the larger of the two first units would be shared
    by_contra hcon
    refine h (max (i * 2 ^ k) (j * 2 ^ k')) (covers_iff.2 ?_) (covers_iff.2 ?_) <;> omega

/-- Live blocks lie in the region, at the start of a page. -/
theorem Inv.inside (h : Inv b live) {p : Nat × Nat} (hp : p ∈ live) :
    p.2 ≤ 12 ∧ ∃ n, p.1 = b.kernelStartAddr + n * blockSize ∧ n + 2 ^ p.2 ≤ 2 ^ 12 := by
  obtain ⟨-, H, -, hm⟩ := h
  obtain ⟨i, hi, ha⟩ := (hm p).1 hp
  obtain ⟨hk, hlt⟩ := H.live_fits hi
  simp only at hk hlt
  refine ⟨hk, i * 2 ^ p.2, ha, ?_⟩
  calc i * 2 ^ p.2 + 2 ^ p.2 = (i + 1) * 2 ^ p.2 := by rw [Nat.add_mul, Nat.one_mul]
    _ ≤ 2 ^ (12 - p.2) * 2 ^ p.2 := Nat.mul_le_mul_right _ hlt
    _ = 2 ^ 12 := by rw [← Nat.pow_add, Nat.sub_add_cancel hk]

/-- A page that the buddy allocator has handed out. -/
theorem Inv.page {b : Buddy} {live : List (Nat × Nat)} {p o : Nat} (h : Inv b live)
    (hstart : blockSize ∣ b.kernelStartAddr) (hp : (p, o) ∈ live) : blockSize ∣ p := by
  obtain ⟨-, n, hn, -⟩ := h.inside hp
  simp only at hn
  rw [hn]
  exact (Nat.dvd_add_right hstart).2 (Nat.dvd_mul_left _ _)

/-- Two live blocks are disjoint. -/
theorem Inv.apart (h : Inv b live) {p q : Nat × Nat} (hp : p ∈ live) (hq : q ∈ live)
    (hne : p ≠ q) :
    p.1 + 2 ^ p.2 * blockSize ≤ q.1 ∨ q.1 + 2 ^ q.2 * blockSize ≤ p.1 := by
  obtain ⟨-, H, -, hm⟩ := h
  obtain ⟨i, hi, ha⟩ := (hm p).1 hp
  obtain ⟨j, hj, hb⟩ := (hm q).1 hq
  have := (addrOf_apart (b := b) (c := (p.2, i)) (d := (q.2, j))).2 fun x hx hx' => by
    have he := H.owned_inj (.inr hi) (.inr hj) hx hx'
    simp only [Prod.mk.injEq] at he
    exact hne (Prod.ext (by rw [ha, hb, he.1, he.2]) he.1)
  rwa [← ha, ← hb] at this

/-- There are no more live blocks than pages. -/
theorem Inv.length_le (h : Inv b live) : live.length ≤ 2 ^ 12 := by
  have hpage : ∀ p ∈ live, (p.1 - b.kernelStartAddr) / blockSize < 2 ^ 12 ∧
      p.1 = b.kernelStartAddr + (p.1 - b.kernelStartAddr) / blockSize * blockSize := by
    intro p hp
    obtain ⟨-, n, hn, hle⟩ := h.inside hp
    have hpos : 0 < 2 ^ p.2 := Nat.two_pow_pos _
    rw [hn, Nat.add_sub_cancel_left, Nat.mul_div_cancel _ (by decide)]
    exact ⟨by omega, rfl⟩
  have hnd : (live.map fun p => (p.1 - b.kernelStartAddr) / blockSize).Nodup := by
    refine h.1.map_on fun p hp q hq he => ?_
    by_contra hne
    have hp0 : 0 < 2 ^ p.2 * blockSize := Nat.mul_pos (Nat.two_pow_pos _) (by decide)
    have hq0 : 0 < 2 ^ q.2 * blockSize := Nat.mul_pos (Nat.two_pow_pos _) (by decide)
    have h1 : p.1 = q.1 := by rw [(hpage p hp).2, (hpage q hq).2, he]
    have := h.apart hp hq hne
    omega
  have hsub : (live.map fun p => (p.1 - b.kernelStartAddr) / blockSize) ⊆ List.range (2 ^ 12) := by
    intro n hn
    obtain ⟨p, hp, rfl⟩ := List.mem_map.1 hn
    exact List.mem_range.2 (hpage p hp).1
  have := (hnd.subperm hsub).length_le
  rwa [List.length_map, List.length_range] at this

/-- The blocks on the lists `L`, with their orders. -/
def freeBlocks (L : Nat → List Nat) : List (Nat × Nat) :=
  (List.range 13).flatMap fun k => (L k).map (·, k)

theorem mem_freeBlocks {L : Nat → List Nat} {p : Nat × Nat} :
    p ∈ freeBlocks L ↔ p.2 ≤ 12 ∧ p.1 ∈ L p.2 := by
  obtain ⟨a, k⟩ := p
  simp only [freeBlocks, List.mem_flatMap, List.mem_range, List.mem_map, Prod.mk.injEq]
  constructor
  · intro hand
    obtain ⟨k', hk', a', ha', rfl, rfl⟩ := hand
    exact ⟨by omega, ha'⟩
  · intro hand
    obtain ⟨hk, ha⟩ := hand
    exact ⟨k, by omega, a, ha, rfl, rfl⟩

/-- The blocks on the lists `L` and the live blocks partition the region. -/
structure Partition (b : Buddy) (L : Nat → List Nat) (live : List (Nat × Nat)) : Prop where
  addrs : ((freeBlocks L ++ live).map Prod.fst).Nodup
  aligned : ∀ p ∈ freeBlocks L ++ live, p.2 ≤ 12 ∧
    ∃ i < 2 ^ (12 - p.2), p.1 = b.kernelStartAddr + i * (2 ^ p.2 * blockSize)
  cover : ∀ x, b.kernelStartAddr ≤ x → x < b.kernelStartAddr + 2 ^ 12 * blockSize →
    ∃! p, p ∈ freeBlocks L ++ live ∧ p.1 ≤ x ∧ x < p.1 + 2 ^ p.2 * blockSize

section
variable {L : Nat → List Nat} {H : State 12}

/-- A listed block and a live one are disjoint. -/
theorem Inv.free_apart (h : Inv b live) (hL : FreeLists b L) (hk : k ≤ 12) {a : Nat}
    (ha : a ∈ L k) {p : Nat × Nat} (hp : p ∈ live) :
    a + 2 ^ k * blockSize ≤ p.1 ∨ p.1 + 2 ^ p.2 * blockSize ≤ a := by
  obtain ⟨-, H, hr, hm⟩ := h
  obtain ⟨i, hi, rfl⟩ := (hL.mem_iff hr.lists hk a).1 ha
  obtain ⟨j, hj, hb⟩ := (hm p).1 hp
  have := (addrOf_apart (b := b) (c := (k, i)) (d := (p.2, j))).2 fun x hx hx' =>
    H.not_live hi (H.owned_inj (.inl hi) (.inr hj) hx hx' ▸ hj)
  rwa [← hb] at this

/-- Listed and live blocks are exactly the blocks of the tiling. -/
theorem mem_owned_iff (hL : FreeLists b L) (hr : Rep b H)
    (hm : ∀ p, p ∈ live ↔ ∃ i, (p.2, i) ∈ H.live ∧ p.1 = b.addrOf (p.2, i)) (p : Nat × Nat) :
    p ∈ freeBlocks L ++ live ↔ ∃ i, (p.2, i) ∈ H.free ∪ H.live ∧ p.1 = b.addrOf (p.2, i) := by
  rw [List.mem_append, mem_freeBlocks, hm]
  constructor
  · rintro (⟨hk, ha⟩ | ⟨i, hi, ha⟩)
    · obtain ⟨i, hi, ha⟩ := (hL.mem_iff hr.lists hk _).1 ha
      exact ⟨i, .inl hi, ha⟩
    · exact ⟨i, .inr hi, ha⟩
  · rintro ⟨i, hi | hi, ha⟩
    · have hk := (H.free_fits hi).1
      exact .inl ⟨hk, (hL.mem_iff hr.lists hk _).2 ⟨i, hi, ha⟩⟩
    · exact .inr ⟨i, hi, ha⟩

theorem partition_of_rep (hL : FreeLists b L) (hr : Rep b H) (hnd : live.Nodup)
    (hm : ∀ p, p ∈ live ↔ ∃ i, (p.2, i) ∈ H.live ∧ p.1 = b.addrOf (p.2, i)) :
    Partition b L live := by
  have hmem := mem_owned_iff hL hr hm
  -- listed and live blocks at one address are the same block
  have hinj : ∀ p ∈ freeBlocks L ++ live, ∀ q ∈ freeBlocks L ++ live, p.1 = q.1 → p = q := by
    intro p hp q hq he
    obtain ⟨i, hi, hpi⟩ := (hmem p).1 hp
    obtain ⟨j, hj, hqj⟩ := (hmem q).1 hq
    have := addrOf_owned (b := b) hi hj (by rw [← hpi, ← hqj, he])
    exact Prod.ext he (congrArg Prod.fst this)
  have hfree : (freeBlocks L).Nodup := by
    refine List.nodup_flatMap.2 ⟨fun k hk => ?_, ?_⟩
    · have hk' : k ≤ 12 := by have := List.mem_range.1 hk; omega
      exact (Linked.nodup (hL k hk')).map fun x y he => congrArg Prod.fst he
    · refine (List.nodup_range (n := 13)).imp fun {k k'} hne => ?_
      intro p hp hp'
      obtain ⟨a, -, rfl⟩ := List.mem_map.1 hp
      obtain ⟨a', -, he⟩ := List.mem_map.1 hp'
      exact hne (congrArg Prod.snd he).symm
  refine ⟨List.Nodup.map_on hinj (List.nodup_append.2 ⟨hfree, hnd, ?_⟩), ?_, ?_⟩
  · rintro p hp q hq rfl
    obtain ⟨hk, ha⟩ := mem_freeBlocks.1 hp
    obtain ⟨i, hi, hpi⟩ := (hL.mem_iff hr.lists hk _).1 ha
    obtain ⟨j, hj, hpj⟩ := (hm p).1 hq
    have := addrOf_inj (hpi.symm.trans hpj)
    exact H.not_live hi (this ▸ hj)
  · intro p hp
    obtain ⟨i, hi, ha⟩ := (hmem p).1 hp
    obtain ⟨hk, hlt⟩ := H.tiles.fits _ hi
    exact ⟨hk, i, hlt, by rw [ha]; unfold addrOf; simp only [Nat.mul_assoc]⟩
  · intro x hx hx'
    obtain ⟨c, hc, hcx⟩ := H.tiles.cover ((x - b.kernelStartAddr) / blockSize)
      (by unfold blockSize at *; omega)
    refine ⟨(b.addrOf c, c.1), ⟨(hmem _).2 ⟨c.2, hc, rfl⟩, (covers_byte hx).1 hcx⟩, ?_⟩
    rintro p ⟨hp, hpx⟩
    obtain ⟨i, hi, ha⟩ := (hmem p).1 hp
    have hpc : Covers (p.2, i) ((x - b.kernelStartAddr) / blockSize) :=
      (covers_byte hx).2 (by rw [← ha]; exact hpx)
    have := H.owned_inj hi hc hpc hcx
    exact Prod.ext (by rw [ha, this]) (congrArg Prod.fst this)

/-! ## The calls of `free` -/

/-- The calls of `returnBlock` in `free(a, k)`: state, order and address of each. -/
inductive FreeCall (b : Buddy) (k a : Nat) : Buddy → Nat → Nat → Prop
  | first : FreeCall b k a b k a
  | next {b' b'' : Buddy} {k' a' a'' : Nat} : FreeCall b k a b' k' a' →
      b'.returnBlock k' a' = some (some a'', b'') → FreeCall b k a b'' (k' + 1) a''

/-- Each call of `returnBlock` is on a live block of a represented state. -/
theorem FreeCall.rep {a k' a' : Nat} (hc : FreeCall b k a b' k' a') (hr : Rep b H) {i : Nat}
    (hi : (k, i) ∈ H.live) (ha : a = b.addrOf (k, i)) :
    ∃ H' j, Rep b' H' ∧ (k', j) ∈ H'.live ∧ a' = b'.addrOf (k', j) := by
  induction hc with
  | first => exact ⟨H, i, hr, hi, ha⟩
  | next _ he ih =>
    obtain ⟨H', j, hr', hj, rfl⟩ := ih
    obtain ⟨L, hL⟩ := hr'.lists.exists_freeLists
    obtain ⟨r, b'', he', hg, ⟨rfl, -⟩ | ⟨hk, hs, rfl, hr'', -⟩⟩ := returnBlock_rep hr' hL hj
    · rw [he'] at he; cases he
    · rw [he'] at he
      simp only [Option.some.injEq, Prod.mk.injEq] at he
      obtain ⟨rfl, rfl⟩ := he
      exact ⟨_, j / 2, hr'', .inl rfl, (hg.addrOf _).symm⟩

end

/-- **Buddy tiling.** After any run from a successful `buddyInit` the free lists and the live blocks
partition the reserved region; every admitted call returns, and `coalesceBuddy` finds the buddy in
every call of `free`. -/
theorem buddy_tiling {heap heap' : HeapBounds} {space : Nat} {blockNum : Int} {b₀ : Buddy}
    {calls : List Call} {s : Client} (hn : getBlockNum heap = some (blockNum, 12))
    (hinit : buddyInit heap 12 space blockNum = some (b₀, heap'))
    (hrun : Run Client.Ok Client.step ⟨b₀, []⟩ calls s) :
    s.buddy.kernelStartAddr = b₀.kernelStartAddr ∧
    b₀.kernelEndAddr = b₀.kernelStartAddr + 2 ^ 12 * blockSize ∧
    (∃ L, FreeLists s.buddy L ∧ Partition s.buddy L s.live) ∧
    (∀ c, s.Ok c → ∃ s', s.step c = some s') ∧
    (∀ a k, (a, k) ∈ s.live → ∀ b' k' a', FreeCall s.buddy k a b' k' a' → k' ≠ b'.maxOrder →
      (b'.flipBit (b'.getIndex a' k')).isBuddyFree (b'.getIndex a' k') = true →
      ∃ r b'', (b'.flipBit (b'.getIndex a' k')).coalesceBuddy k' (b'.getIndex a' k') a' =
        some (some r, b'')) := by
  obtain rfl := getBlockNum_eq hn
  obtain ⟨hg, hinv⟩ := Client.run_inv (Inv.init hinit) hrun
  obtain ⟨hnd, H, hr, hm⟩ := id hinv
  refine ⟨hg.start, buddyInit_region hinit, ?_, fun c => Client.step_some hinv,
    fun a k hlive b' k' a' hc hk hfree => ?_⟩
  · obtain ⟨L, hL⟩ := hr.lists.exists_freeLists
    exact ⟨L, hL, partition_of_rep hL hr hnd hm⟩
  · obtain ⟨i, hi, ha⟩ := (hm _).1 hlive
    obtain ⟨H', j, hr', hj, rfl⟩ := hc.rep hr hi ha
    rw [hr'.order] at hk
    have hk' : k' < 12 := by
      have := (H'.live_fits hj).1
      simp only at this
      omega
    rw [getIndex_addrOf hr'.order] at *
    obtain ⟨L, hL⟩ := hr'.lists.exists_freeLists
    obtain ⟨b'', he, -⟩ := coalesceBuddy_rep (b := b'.flipBit (pairIndex k' (j / 2))) hr'.order
      (hL.congr rfl rfl) (hr'.lists.congr rfl rfl rfl) (by omega) hj ((flipBit_isBuddyFree hr' hj hk').1 hfree)
    exact ⟨_, b'', he⟩

/-- The heap of the 128 MB machine, the kernel image below it. -/
def heap128 : HeapBounds := ⟨0x80010000, 0x88000000⟩

theorem buddy_tiling_heap128 : ∃ b₀ heap' s,
    getBlockNum heap128 = some (4096, 12) ∧
    buddyInit heap128 12 heap128.startAddr 4096 = some (b₀, heap') ∧
    Run Client.Ok Client.step ⟨b₀, []⟩ [.alloc 3, .alloc 0, .free 0x80011000 3] s ∧
    ∃ L, FreeLists s.buddy L ∧ Partition s.buddy L s.live := by
  have hn : getBlockNum heap128 = some (4096, 12) := by decide
  refine ⟨_, _, _, hn, rfl, .cons trivial rfl (.cons trivial rfl (.cons ?_ rfl .nil)), ?_⟩
  · exact .tail _ (.head _)
  · have := @buddy_tiling heap128 _ heap128.startAddr 4096 _
      [.alloc 3, .alloc 0, .free 0x80011000 3] _ hn rfl
      (.cons trivial rfl (.cons trivial rfl (.cons (.tail _ (.head _)) rfl .nil)))
    exact this.2.2.1

/-- The address of the `i`-th block of order `k`. -/
def blockAddr (b : Buddy) (k i : Nat) : Nat := b.kernelStartAddr + i * (2 ^ k * blockSize)

theorem blockAddr_eq (b : Buddy) (k i : Nat) : b.blockAddr k i = b.addrOf (k, i) := by
  unfold blockAddr addrOf
  simp only [Nat.mul_assoc]

/-- **Buddy exactness and no fragmentation.** In every state of a run, at every order: the bit of a
buddy pair is set iff exactly one of the two is on its list, no two buddies are on a list, and
`alloc` fails iff every aligned run of that size meets a live block. -/
theorem buddy_exact {heap heap' : HeapBounds} {space : Nat} {blockNum : Int} {b₀ : Buddy}
    {calls : List Call} {s : Client} (hinit : buddyInit heap 12 space blockNum = some (b₀, heap'))
    (hrun : Run Client.Ok Client.step ⟨b₀, []⟩ calls s) :
    ∃ L, FreeLists s.buddy L ∧
    (∀ k < 12, ∀ i < 2 ^ (12 - k),
      (s.buddy.bit (s.buddy.getIndex (s.buddy.blockAddr k i) k) = true ↔
        Xor (s.buddy.blockAddr k i ∈ L k) (s.buddy.blockAddr k (sib i) ∈ L k)) ∧
      ¬ (s.buddy.blockAddr k i ∈ L k ∧ s.buddy.blockAddr k (sib i) ∈ L k)) ∧
    (∀ k : Nat, k ≤ 12 → ((s.buddy.alloc k).1 = none ↔
      ¬ ∃ i < 2 ^ (12 - k), ∀ p ∈ s.live,
        s.buddy.blockAddr k i + 2 ^ k * blockSize ≤ p.1 ∨
          p.1 + 2 ^ p.2 * blockSize ≤ s.buddy.blockAddr k i)) := by
  obtain ⟨-, hnd, H, hr, hm⟩ := Client.run_inv (Inv.init hinit) hrun
  obtain ⟨L, hL⟩ := hr.lists.exists_freeLists
  have hmem : ∀ k ≤ 12, ∀ i, s.buddy.blockAddr k i ∈ L k ↔ (k, i) ∈ H.free := by
    intro k hk i
    rw [blockAddr_eq, hL.mem_iff hr.lists hk]
    exact ⟨fun ⟨j, hj, he⟩ => addrOf_inj he ▸ hj, fun h => ⟨i, h, rfl⟩⟩
  refine ⟨L, hL, fun k hk i hi => ⟨?_, ?_⟩, fun k hk => ?_⟩
  · rw [hmem k (by omega), hmem k (by omega), blockAddr_eq, getIndex_addrOf hr.order,
      hr.bits.pair k (i / 2) hk (pair_lt hk hi)]
    rcases Nat.mod_two_eq_zero_or_one i with h0 | h0
    · rw [show sib i = i + 1 by simp [sib, h0], show 2 * (i / 2) = i by omega]
      unfold Xor
      tauto
    · rw [show sib i = i - 1 by simp [sib, h0], show 2 * (i / 2) = i - 1 by omega,
        show i - 1 + 1 = i by omega]
      unfold Xor
      tauto
  · rw [hmem k (by omega), hmem k (by omega)]
    intro hand
    obtain ⟨h1, h2⟩ := hand
    exact hr.coalesced k i hk h1 h2
  · have hfit : ∀ i, i < 2 ^ (12 - k) ↔ Fits 12 (k, i) := fun i => by
      unfold Fits; simp [hk]
    -- a run meets no live block iff it shares no page with one
    have hrun : (∃ i < 2 ^ (12 - k), ∀ p ∈ s.live,
          s.buddy.blockAddr k i + 2 ^ k * blockSize ≤ p.1 ∨
            p.1 + 2 ^ p.2 * blockSize ≤ s.buddy.blockAddr k i) ↔
        ∃ i, Fits 12 (k, i) ∧ ∀ x, Covers (k, i) x → ∀ c ∈ H.live, ¬ Covers c x := by
      refine exists_congr fun i => and_congr (hfit i) ?_
      rw [blockAddr_eq]
      constructor
      · rintro h x hx ⟨k', j⟩ hc hcx
        have hp := h _ ((hm (s.buddy.addrOf (k', j), k')).2 ⟨j, hc, rfl⟩)
        exact addrOf_apart.1 hp x hx hcx
      · rintro h ⟨a, k'⟩ hp
        obtain ⟨j, hj, ha⟩ := (hm _).1 hp
        simp only at hj ha ⊢
        subst ha
        exact addrOf_apart.2 fun x hx => h x hx _ hj
    rw [hrun, ← hr.coalesced.exists_free_iff]
    rcases alloc_rep hr (show (0 : Int) ≤ k by omega) (by omega) with ⟨he, hno⟩ |
      ⟨H', i, hp, hg, hr', hnew, hlive⟩
    · simp only [he, true_iff]
      intro hand
      obtain ⟨c, hc, hk'⟩ := hand
      have := hno c hc
      rw [Int.toNat_natCast] at this
      omega
    · simp only [hp, reduceCtorEq, false_iff, not_not]
      rw [Int.toNat_natCast] at hnew hlive
      -- the run that became live met no live block
      have hfit' : Fits 12 (k, i) := H'.live_fits (hlive ▸ .inl rfl)
      refine hr.coalesced.exists_free_iff.2 ⟨i, hfit', fun x hx c hc hcx => ?_⟩
      have := H'.owned_inj (.inr (hlive ▸ .inl rfl)) (.inr (hlive ▸ .inr hc)) hx hcx
      exact hnew (this ▸ hc)

theorem buddy_exact_heap128 : ∃ b₀ heap' s,
    buddyInit heap128 12 heap128.startAddr 4096 = some (b₀, heap') ∧
    Run Client.Ok Client.step ⟨b₀, []⟩ [.alloc 12] s ∧
    ((s.buddy.alloc (0 : Nat)).1 = none ↔ ¬ ∃ i < 2 ^ 12, ∀ p ∈ s.live,
      s.buddy.blockAddr 0 i + 2 ^ 0 * blockSize ≤ p.1 ∨
        p.1 + 2 ^ p.2 * blockSize ≤ s.buddy.blockAddr 0 i) := by
  refine ⟨_, _, _, rfl, .cons trivial rfl .nil, ?_⟩
  obtain ⟨-, -, -, h⟩ := @buddy_exact heap128 _ heap128.startAddr 4096 _ [.alloc 12] _ rfl
    (.cons trivial rfl .nil)
  exact h 0 (by decide)

end SlabKernel.Buddy
