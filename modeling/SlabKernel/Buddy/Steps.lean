import Mathlib.Data.List.Perm.Subperm
import SlabKernel.Buddy.Rep

/-!
# `alloc` and `free` as moves of the abstract allocator

`Rep b H`: the lists and the bitmap of `b` represent the free set of `H`, and no two buddies are
free. `alloc` is a `take` followed by one `split` for each round of `splitBlock` (`splitBlock_rep`,
`alloc_rep`); `free` is one `merge` for each round of its loop and a final `give` (`returnBlock_rep`,
`free_rep`).
-/

namespace SlabKernel.Buddy

open Function (update)
open PtrList Dyadic

/-- `b` represents the coalesced abstract state `H`. -/
structure Rep (b : Buddy) (H : State 12) : Prop where
  order : b.maxOrder = 12
  lists : Lists b H.free
  bits : Bits b H.free
  coalesced : H.Coalesced

/-- The fields no operation changes. -/
structure SameGeom (b b' : Buddy) : Prop where
  start : b'.kernelStartAddr = b.kernelStartAddr
  finish : b'.kernelEndAddr = b.kernelEndAddr
  order : b'.maxOrder = b.maxOrder

variable {b b' b₁ b₂ : Buddy} {H : State 12} {k i n : Nat} {F : Set Block} {L : Nat → List Nat}

theorem SameGeom.rfl : SameGeom b b := ⟨by rfl, by rfl, by rfl⟩

theorem SameGeom.trans (h₁ : SameGeom b b₁) (h₂ : SameGeom b₁ b₂) : SameGeom b b₂ :=
  ⟨h₂.start.trans h₁.start, h₂.finish.trans h₁.finish, h₂.order.trans h₁.order⟩

theorem SameGeom.addrOf (h : SameGeom b b') (c : Block) : b'.addrOf c = b.addrOf c := by
  unfold Buddy.addrOf
  rw [h.start]

theorem sameGeom_addBlock (b : Buddy) (a k : Nat) : SameGeom b (b.addBlock a k) := ⟨rfl, rfl, rfl⟩

theorem sameGeom_flipBit (b : Buddy) (n : Nat) : SameGeom b (b.flipBit n) := ⟨rfl, rfl, rfl⟩

theorem sameGeom_flipParent (b : Buddy) (a k : Nat) : SameGeom b (b.flipParent a k) := by
  unfold flipParent
  split
  · exact sameGeom_flipBit _ _
  · exact .rfl

/-- Owned blocks have addresses of their own. -/
theorem addrOf_owned {c d : Block} (hc : c ∈ H.free ∪ H.live) (hd : d ∈ H.free ∪ H.live)
    (h : b.addrOf c = b.addrOf d) : c = d := by
  unfold addrOf blockSize at h
  have he : c.2 * 2 ^ c.1 = d.2 * 2 ^ d.1 := by omega
  exact H.owned_inj hc hd (covers_first c.1 c.2) (he ▸ covers_first d.1 d.2)

/-! ## Taking a block off a list -/

theorem getBlock_none (h : Lists b F) (hk : k ≤ 12) (hn : (b.getBlock k).1 = none) :
    b.getBlock k = (none, b) ∧ ∀ i, (k, i) ∉ F := by
  unfold getBlock at *
  split at hn
  · rename_i he
    exact ⟨rfl, (h.none_iff hk).1 he⟩
  · cases hn

/-- `getBlock` takes the first block of the list. -/
theorem getBlock_some (hL : FreeLists b L) (h : Lists b H.free) (hk : k ≤ 12) {p : Nat}
    (hp : (b.getBlock k).1 = some p) :
    ∃ i l, (k, i) ∈ H.free ∧ p = b.addrOf (k, i) ∧ L k = p :: l ∧ SameGeom b (b.getBlock k).2 ∧
      (b.getBlock k).2.bitmap = b.bitmap ∧ FreeLists (b.getBlock k).2 (update L k l) ∧
      Lists (b.getBlock k).2 (H.free \ {(k, i)}) := by
  unfold getBlock at *
  split at hp
  · cases hp
  · rename_i q he
    obtain rfl : q = p := Option.some.inj hp
    obtain ⟨l, hl, hl'⟩ := Linked.cons_of_some (he ▸ hL k hk)
    obtain ⟨i, hi, rfl⟩ := (hL.mem_iff h hk q).1 (by simp [hl])
    have herase : (L k).erase (b.addrOf (k, i)) = l := by rw [hl, List.erase_cons_head]
    obtain ⟨hL', h'⟩ : FreeLists { b with blocks := update b.blocks k (b.next _) } _ ∧ _ :=
      hL.remove h rfl hk hi (fun j hj => Function.update_of_ne hj _ _) (fun _ _ => rfl)
      (fun c hc d hd _ _ => addrOf_owned (.inl hc) (.inl hd))
      (by rw [herase]; simp only [Function.update_self]; exact hl')
    rw [herase] at hL'
    exact ⟨i, l, hi, rfl, hl, ⟨rfl, rfl, rfl⟩, rfl, hL', h'⟩

/-! ## Splitting -/

/-- The upper half of a live block has an address of its own. -/
theorem upper_fresh (hi : (k + 1, i) ∈ H.live) :
    ∀ c ∈ H.free, c.1 ≤ 12 → b.addrOf c ≠ b.addrOf (k, 2 * i + 1) := by
  intro c hc _ he
  -- an owned block at that address would share the upper half with the block in hand
  have hcov : Covers (k + 1, i) ((2 * i + 1) * 2 ^ k) :=
    covers_succ.2 (.inr (covers_first k (2 * i + 1)))
  have hcx : Covers c ((2 * i + 1) * 2 ^ k) := by
    unfold addrOf blockSize at he
    have : c.2 * 2 ^ c.1 = (2 * i + 1) * 2 ^ k := by simp only at he; omega
    exact this ▸ covers_first c.1 c.2
  have := H.owned_inj (.inl hc) (.inr hi) hcx hcov
  exact H.not_live hc (this ▸ hi)

/-- One round of `splitBlock`: the upper half of the block in hand goes to its list, and the bit of
the block's own pair catches up. The bits count the block in hand as free. -/
theorem splitStep_rep (hN : b.maxOrder = 12) (hl : Lists b H.free)
    (hb : Bits b (insert (k + 1, i) H.free)) (hi : (k + 1, i) ∈ H.live) :
    let b' := (b.addBlock (b.addrOf (k + 1, i) + 2 ^ k * blockSize) k).flipParent
      (b.addrOf (k + 1, i)) (k + 1)
    SameGeom b b' ∧ Lists b' (H.split hi).free ∧
      Bits b' (insert (k, 2 * i) (H.split hi).free) ∧
      ∀ L, FreeLists b L → ∃ l, FreeLists b' (update L k l) := by
  intro b'
  have hfit := H.live_fits hi
  have hk : k + 1 ≤ 12 := hfit.1
  have hn := H.child_not_owned (.inr hi)
  have hla : Lists (b.addBlock (b.addrOf (k, 2 * i + 1)) k) (insert (k, 2 * i + 1) H.free) :=
    hl.add (upper_fresh hi)
  have hg : SameGeom b b' := (sameGeom_addBlock _ _ _).trans (sameGeom_flipParent _ _ _)
  rw [addrOf_upper] at hla
  have hblocks : b'.blocks = (b.addBlock (b.addrOf (k + 1, i) + 2 ^ k * blockSize) k).blocks := by
    simp only [b', flipParent]; split <;> rfl
  have hnext : b'.next = (b.addBlock (b.addrOf (k + 1, i) + 2 ^ k * blockSize) k).next := by
    simp only [b', flipParent]; split <;> rfl
  refine ⟨hg, hla.congr (sameGeom_flipParent _ _ _).start hblocks hnext, ?_, fun L hL => ?_⟩
  swap
  · refine ⟨_, FreeLists.congr (hL.add fun j hj ha => ?_) hblocks hnext⟩
    obtain ⟨i', hi', he⟩ := (hL.mem_iff hl hj _).1 ha
    exact upper_fresh (b := b) hi _ hi' hj (by rw [addrOf_upper]; exact he.symm)
  -- the children's pair: none of them was free, now both count as free
  have hchild : ∀ k' j, k' < 12 →
      (((k', 2 * j) ∈ H.free ↔ (k', 2 * j + 1) ∉ H.free) ↔
        ((k', 2 * j) ∈ insert (k, 2 * i) (insert (k, 2 * i + 1) H.free) ↔
          (k', 2 * j + 1) ∉ insert (k, 2 * i) (insert (k, 2 * i + 1) H.free))) := by
    intro k' j _
    have h1 : (k, 2 * i) ∉ H.free := fun h => hn.1 (.inl h)
    have h2 : (k, 2 * i + 1) ∉ H.free := fun h => hn.2 (.inl h)
    by_cases he : k' = k ∧ j = i
    · obtain ⟨rfl, rfl⟩ := he
      simp [h1, h2]
    · have : ∀ m, m / 2 = j → (k', m) ∉ ({(k, 2 * i), (k, 2 * i + 1)} : Set Block) := by
        rintro m hm (h | h) <;> simp only [Prod.mk.injEq, Set.mem_singleton_iff] at h <;>
          exact he ⟨h.1, by omega⟩
      have h3 := this (2 * j) (by omega)
      have h4 := this (2 * j + 1) (by omega)
      simp only [Set.mem_insert_iff, Set.mem_singleton_iff, not_or] at h3 h4 ⊢
      simp [h3, h4]
  by_cases hlt : k + 1 < 12
  · have hflip : b' = (b.addBlock (b.addrOf (k + 1, i) + 2 ^ k * blockSize) k).flipBit
        (pairIndex (k + 1) (i / 2)) := by
      have hN' : (b.addBlock (b.addrOf (k + 1, i) + 2 ^ k * blockSize) k).maxOrder = 12 := hN
      simp only [b', flipParent, hN', if_pos hlt]
      congr 1
      exact getIndex_addrOf hN' (k + 1) i
    have hb₁ : Bits (b.addBlock (b.addrOf (k + 1, i) + 2 ^ k * blockSize) k)
        (insert (k + 1, i) H.free) := hb.congr rfl fun _ _ _ => Iff.rfl
    have : Bits _ H.free := hb₁.flip hlt hfit.2 (fun c hc => by simp [Set.mem_insert_iff, hc])
      (by simp [H.not_free hi])
    rw [hflip]
    exact this.congr rfl hchild
  · -- the top order has no bit
    obtain rfl : k = 11 := by omega
    have hflip : b' = b.addBlock (b.addrOf (11 + 1, i) + 2 ^ 11 * blockSize) 11 := by
      have hN' : (b.addBlock (b.addrOf (11 + 1, i) + 2 ^ 11 * blockSize) 11).maxOrder = 12 := hN
      simp only [b', flipParent, hN', if_neg hlt]
    have hb₁ : Bits b H.free := hb.congr rfl fun k j hk => by
      have : ∀ m, (k, m) ≠ (11 + 1, i) := fun m h => by
        simp only [Prod.mk.injEq] at h; omega
      simp [Set.mem_insert_iff, this]
    rw [hflip]
    exact hb₁.congr rfl hchild

/-- `splitBlock` halves the block in hand down to order `lower`. -/
theorem splitBlock_rep {lower : Nat} (hN : b.maxOrder = 12) (hl : Lists b H.free)
    (hb : Bits b (insert (k, i) H.free)) (hc : H.Coalesced) (hi : (k, i) ∈ H.live)
    (hk : lower ≤ k) :
    ∃ H' : State 12, ∃ j, let b' := b.splitBlock (b.addrOf (k, i)) k lower
      SameGeom b b' ∧ Lists b' H'.free ∧ Bits b' (insert (lower, j) H'.free) ∧ H'.Coalesced ∧
        H'.live = insert (lower, j) (H.live \ {(k, i)}) ∧ b.addrOf (k, i) = b.addrOf (lower, j) ∧
        ∀ L, FreeLists b L → ∃ L', FreeLists b' L' ∧ ∀ m, m < lower ∨ k ≤ m → L' m = L m := by
  induction k generalizing b H i with
  | zero =>
    obtain rfl : lower = 0 := by omega
    exact ⟨H, i, .rfl, hl, hb, hc, by simp [Set.insert_eq_of_mem hi], rfl,
      fun L hL => ⟨L, hL, fun _ _ => rfl⟩⟩
  | succ k ih =>
    unfold splitBlock
    by_cases hlk : lower ≤ k
    · simp only [if_pos hlk]
      obtain ⟨hg, hl', hb', hlists⟩ := splitStep_rep hN hl hb hi
      have hi' : (k, 2 * i) ∈ (H.split hi).live := .inl rfl
      have ha : b.addrOf (k + 1, i) = ((b.addBlock (b.addrOf (k + 1, i) + 2 ^ k * blockSize)
          k).flipParent (b.addrOf (k + 1, i)) (k + 1)).addrOf (k, 2 * i) := by
        rw [hg.addrOf, addrOf_lower]
      obtain ⟨H', j, hg', hl'', hb'', hc', hlive, haddr, hlists'⟩ :=
        ih (hg.order.trans hN) hl' hb' (hc.split hi) hi' hlk
      rw [← ha] at hg' hl'' hb'' haddr hlists'
      refine ⟨H', j, hg.trans hg', hl'', hb'', hc', ?_, by rw [haddr, hg.addrOf], fun L hL => ?_⟩
      swap
      · obtain ⟨l, hL₁⟩ := hlists L hL
        obtain ⟨L', hL', hsame⟩ := hlists' _ hL₁
        refine ⟨L', hL', fun m hm => ?_⟩
        rw [hsame m (by omega), Function.update_of_ne (by omega)]
      have hn : (k, 2 * i) ∉ H.live \ {(k + 1, i)} :=
        fun h => (H.child_not_owned (.inr hi)).1 (.inr h.1)
      rw [hlive]
      simp only [State.split]
      rw [Set.insert_sdiff_of_mem _ (Set.mem_singleton _), Set.sdiff_singleton_eq_self hn]
    · obtain rfl : lower = k + 1 := by omega
      simp only [if_neg hlk]
      exact ⟨H, i, .rfl, hl, hb, hc, by simp [Set.insert_eq_of_mem hi], rfl,
        fun L hL => ⟨L, hL, fun _ _ => rfl⟩⟩

/-! ## `alloc` -/

/-- The last flip of `alloc` takes the block in hand out of the free set the bits describe. -/
theorem lastFlip_rep (hN : b.maxOrder = 12) (hl : Lists b H.free)
    (hb : Bits b (insert (k, i) H.free)) (hc : H.Coalesced) (hi : (k, i) ∈ H.live) :
    Rep (if k = b.maxOrder then b else b.flipBit (b.getIndex (b.addrOf (k, i)) k)) H := by
  have hfit := H.live_fits hi
  have hfree := H.not_free hi
  rw [hN]
  split
  · rename_i hk
    subst hk
    refine ⟨hN, hl, hb.congr rfl fun k' j hk' => ?_, hc⟩
    have : ∀ m, (k', m) ≠ (12, i) := fun m h => by
      simp only [Prod.mk.injEq] at h; omega
    simp [Set.mem_insert_iff, this]
  · rename_i hk
    refine ⟨hN, hl.congr rfl rfl rfl, ?_, hc⟩
    rw [getIndex_addrOf hN]
    exact hb.flip (by have := hfit.1; simp only at this; omega) hfit.2
      (fun c hne => by simp [Set.mem_insert_iff, hne]) (by simp [hfree])

/-- The outcome of `alloc`: a new live block, or no free block of that order or larger. -/
def AllocOk (b : Buddy) (H : State 12) (k : Nat) (r : Ptr × Buddy) : Prop :=
  (r = (none, b) ∧ ∀ c ∈ H.free, c.1 < k) ∨
  (∃ (H' : State 12) (i : Nat), r.1 = some (b.addrOf (k, i)) ∧ SameGeom b r.2 ∧ Rep r.2 H' ∧
    (k, i) ∉ H.live ∧ H'.live = insert (k, i) H.live)

/-- `alloc` of order `k` took `p` off list `m`, the first list from `k` on that was not empty. -/
structure Taken (L L' : Nat → List Nat) (k m p : Nat) : Prop where
  le : k ≤ m
  taken : L m = p :: L' m
  empty : ∀ j, k ≤ j → j < m → L j = []
  same : ∀ j, j < k ∨ m < j → L' j = L j

theorem allocLoop_rep (h : Rep b H) (hL : FreeLists b L) {m : Nat} (hkm : k ≤ m) (hn : n + m = 13)
    (hlow : ∀ c ∈ H.free, k ≤ c.1 → m ≤ c.1) :
    AllocOk b H k (b.allocLoop k n m) ∧ ∀ p, (b.allocLoop k n m).1 = some p →
      ∃ t ≤ 12, ∃ L', FreeLists (b.allocLoop k n m).2 L' ∧ Taken L L' k t p := by
  induction n generalizing m with
  | zero =>
    refine ⟨.inl ⟨rfl, fun c hc => ?_⟩, fun p hp => nomatch hp⟩
    have := (H.free_fits hc).1
    rcases Nat.lt_or_ge c.1 k with hlt | hge
    · exact hlt
    · have := hlow c hc hge; omega
  | succ n ih =>
    have hm : m ≤ 12 := by omega
    unfold allocLoop
    cases hg : (b.getBlock m).1 with
    | none =>
      obtain ⟨he, hno⟩ := getBlock_none h.lists hm hg
      simp only [he]
      refine ih (by omega) (by omega) fun c hc hkc => ?_
      have := hlow c hc hkc
      rcases Nat.lt_or_ge m c.1 with hlt | hge
      · exact hlt
      · exact absurd hc (by rw [show c = (m, c.2) from Prod.ext (by omega) rfl]; exact hno _)
    | some p =>
      obtain ⟨i, rest, hi, rfl, hrest, hgeom, hbm, hL₁, hl⟩ := getBlock_some hL h.lists hm hg
      have hpair : b.getBlock m = (some (b.addrOf (m, i)), (b.getBlock m).2) :=
        Prod.ext hg rfl
      rw [hpair]
      simp only
      -- the block in hand still counts as free for the bits
      have hb : Bits (b.getBlock m).2 (insert (m, i) (H.take hi).free) := by
        refine h.bits.congr hbm fun _ _ _ => ?_
        simp only [State.take, Set.insert_sdiff_singleton, Set.insert_eq_of_mem hi]
      obtain ⟨H', j, hg', hl', hb', hc', hlive, haddr, hlists⟩ :=
        splitBlock_rep (hgeom.order.trans h.order) hl hb (h.coalesced.take hi)
          (.inl rfl) hkm
      obtain ⟨L', hL', hsame⟩ := hlists _ hL₁
      rw [hgeom.addrOf] at hg' hl' hb' haddr hL'
      rw [hgeom.addrOf] at haddr
      have hnl : (m, i) ∉ H.live := H.not_live hi
      have hlive' : H'.live = insert (k, j) H.live := by
        rw [hlive]
        simp only [State.take]
        rw [Set.insert_sdiff_of_mem _ (Set.mem_singleton _), Set.sdiff_singleton_eq_self hnl]
      have hnew : (k, j) ∉ H.live := by
        intro hold
        -- a live block at the address of the block taken would be that block
        have := addrOf_owned (b := b) (.inl hi) (.inr hold) haddr
        exact hnl (this ▸ hold)
      have htaken : Taken L L' k m (b.addrOf (m, i)) := by
        refine ⟨hkm, ?_, fun j hkj hjm => ?_, fun j hj => ?_⟩
        · rw [hsame m (.inr (Nat.le_refl m)), Function.update_self]
          exact hrest
        · refine List.eq_nil_iff_forall_not_mem.2 fun a ha => ?_
          obtain ⟨i', hi', -⟩ := (hL.mem_iff h.lists (by omega) a).1 ha
          have := hlow _ hi' hkj
          simp only at this
          omega
        · rw [hsame j (by omega), Function.update_of_ne (by omega)]
      generalize (b.getBlock m).2.splitBlock (b.addrOf (m, i)) m k = b₂ at hg' hl' hb' hL'
      have hg₂ := hgeom.trans hg'
      have hr := lastFlip_rep (hg₂.order.trans h.order) hl' hb' hc' (hlive' ▸ .inl rfl)
      rw [hg₂.addrOf, ← haddr] at hr
      refine ⟨.inr ⟨H', j, by rw [haddr], ?_, hr, hnew, hlive'⟩, fun p hp => ?_⟩
      · split
        · exact hg₂
        · exact hg₂.trans (sameGeom_flipBit _ _)
      · obtain rfl := Option.some.inj hp
        refine ⟨m, hm, L', ?_, htaken⟩
        split
        · exact hL'
        · exact hL'.congr rfl rfl

theorem alloc_rep (h : Rep b H) {order : Int} (h0 : 0 ≤ order) (hk : order ≤ 12) :
    AllocOk b H order.toNat (b.alloc order) := by
  obtain ⟨L, hL⟩ := h.lists.exists_freeLists
  unfold alloc
  rw [if_neg (by rw [h.order]; omega), h.order]
  exact (allocLoop_rep h hL (Nat.le_refl _) (by omega) fun _ _ hc => hc).1

theorem alloc_taken (h : Rep b H) (hL : FreeLists b L) {p : Nat} (hk : k ≤ 12)
    (hp : (b.alloc k).1 = some p) :
    ∃ m ≤ 12, ∃ L', FreeLists (b.alloc k).2 L' ∧ Taken L L' k m p := by
  unfold alloc at *
  rw [if_neg (by rw [h.order]; omega), h.order] at *
  exact (allocLoop_rep h hL (Nat.le_refl _) (by omega) fun _ _ hc => hc).2 p hp

/-! ## Coalescing -/

/-- The search of `coalesceBuddy` unlinks the node `t`, the one with the pair's index. -/
theorem coalesceLoop_spec {index t : Nat} {l₁ l₂ : List Nat} {prev curr : Ptr}
    (hl : Linked b.next (b.blocks k) (l₁ ++ l₂)) (hprev : prev = l₁.getLast?)
    (hcurr : Linked b.next curr l₂) (ht : t ∈ l₂)
    (hidx : ∀ a ∈ l₂, (b.getIndex a k = index ↔ a = t)) (hn : l₂.length ≤ n) :
    ∃ b', b.coalesceLoop k index n prev curr = some (some t, b') ∧ SameGeom b b' ∧
      b'.bitmap = b.bitmap ∧ (∀ k', k' ≠ k → b'.blocks k' = b.blocks k') ∧
      (∀ a, a ∉ l₁ ++ l₂ → b'.next a = b.next a) ∧
      Linked b'.next (b'.blocks k) ((l₁ ++ l₂).erase t) := by
  induction l₂ generalizing l₁ prev curr n with
  | nil => simp at ht
  | cons a l₂ ih =>
    obtain ⟨rfl, hnext⟩ := hcurr
    obtain ⟨n, rfl⟩ : ∃ m, n = m + 1 := ⟨n - 1, by simp at hn; omega⟩
    unfold coalesceLoop
    have hnd := Linked.nodup hl
    by_cases hia : b.getIndex a k = index
    · obtain rfl := (hidx a (by simp)).1 hia
      simp only [if_pos hia]
      rcases l₁.eq_nil_or_concat with rfl | ⟨l₁, q, rfl⟩
      · -- the first node: the list head moves on
        simp only [List.nil_append, List.nodup_cons] at hnd
        simp only [List.getLast?_nil] at hprev
        subst hprev
        refine ⟨_, rfl, ⟨rfl, rfl, rfl⟩, rfl, fun k' hk' => Function.update_of_ne hk' _ _,
          fun c hc => Function.update_of_ne (by simp at hc; exact hc.1) _ _, ?_⟩
        simp only [List.nil_append, List.erase_cons_head, Function.update_self]
        exact Seg.update hnext hnd.1 _
      · -- a later node: its predecessor skips it
        rw [List.concat_eq_append] at *
        simp only [List.getLast?_append, List.getLast?_singleton, Option.some_or] at hprev
        subst hprev
        have ha : a ∉ l₁ ++ [q] := by
          rw [List.nodup_append] at hnd
          exact fun hm => hnd.2.2 a hm a (by simp) rfl
        have hal : a ∉ l₂ := by
          rw [List.nodup_append, List.nodup_cons] at hnd
          exact hnd.2.1.1
        have hu := Linked.unlink (b := q) (a := a)
          (by simpa using hl)
        have ha' : a ∉ l₁ ++ q :: l₂ := by
          simp only [List.mem_append, List.mem_cons, List.not_mem_nil, or_false, not_or] at ha ⊢
          exact ⟨ha.1, ha.2, hal⟩
        refine ⟨_, rfl, ⟨rfl, rfl, rfl⟩, rfl, fun _ _ => rfl, fun c hc => ?_, ?_⟩
        · have hca : c ≠ a := fun h => hc (by simp [h])
          have hcq : c ≠ q := fun h => hc (by simp [h])
          simp only [Function.update_of_ne hca, Function.update_of_ne hcq]
        · rw [List.erase_append_right _ ha, List.erase_cons_head, List.append_assoc]
          exact Seg.update hu ha' _
    · have hat : a ≠ t := fun h => hia ((hidx a (by simp)).2 h)
      simp only [if_neg hia]
      have ht' : t ∈ l₂ := (List.mem_cons.1 ht).resolve_left (Ne.symm hat)
      have := ih (show Linked b.next (b.blocks k) ((l₁ ++ [a]) ++ l₂) by simpa using hl)
        (show some a = _ by simp) hnext ht'
        (fun c hc => hidx c (List.mem_cons_of_mem _ hc)) (by simpa using hn)
      simpa using this

/-- A list of free blocks is no longer than the region has pages. -/
theorem lists_length {l : List Nat} (hk : k ≤ 12) (hl : Linked b.next (b.blocks k) l)
    (hm : ∀ a, a ∈ l ↔ ∃ i, (k, i) ∈ H.free ∧ a = b.addrOf (k, i)) : l.length ≤ addrSpace := by
  have hsub : l ⊆ (List.range (2 ^ (12 - k))).map fun i => b.addrOf (k, i) := by
    intro a ha
    obtain ⟨i, hi, rfl⟩ := (hm a).1 ha
    exact List.mem_map.2 ⟨i, List.mem_range.2 (H.free_fits hi).2, rfl⟩
  have h1 := ((Linked.nodup hl).subperm hsub).length_le
  have h2 : 2 ^ (12 - k) ≤ 2 ^ 64 := Nat.pow_le_pow_right (by decide) (by omega)
  simp only [List.length_map, List.length_range] at h1
  exact h1.trans h2

/-- **`coalesceBuddy` finds the buddy**: a free buddy is unlinked, and the result is the address of
the parent. -/
theorem coalesceBuddy_rep (hN : b.maxOrder = 12) (hL : FreeLists b L) (hl : Lists b H.free)
    (hk : k ≤ 12)
    (hi : (k, i) ∈ H.live) (hs : (k, sib i) ∈ H.free) :
    ∃ b', b.coalesceBuddy k (pairIndex k (i / 2)) (b.addrOf (k, i)) =
        some (some (b.addrOf (k + 1, i / 2)), b') ∧
      SameGeom b b' ∧ b'.bitmap = b.bitmap ∧ Lists b' (H.free \ {(k, sib i)}) ∧
      FreeLists b' (update L k ((L k).erase (b.addrOf (k, sib i)))) := by
  have hm := hL.mem_iff hl hk
  have ht : b.addrOf (k, sib i) ∈ L k := (hm _).2 ⟨_, hs, rfl⟩
  have hidx : ∀ a ∈ L k, (b.getIndex a k = pairIndex k (i / 2) ↔ a = b.addrOf (k, sib i)) := by
    intro a ha
    obtain ⟨j, hj, rfl⟩ := (hm a).1 ha
    rw [getIndex_addrOf hN]
    constructor
    · intro h
      have hji : j / 2 = i / 2 := by unfold pairIndex at h; omega
      rcases half_eq_iff.1 hji with rfl | rfl
      · exact absurd hj (H.not_free hi)
      · rfl
    · intro h
      rw [addrOf_inj h, sib_half]
  obtain ⟨b', he, hg, hbm, hb', hn', hl'⟩ := coalesceLoop_spec
    (show Linked b.next (b.blocks k) ([] ++ L k) from hL k hk) (show none = _ from rfl) (hL k hk) ht hidx (lists_length hk (hL k hk) hm)
  obtain ⟨hL', hlists⟩ := hL.remove hl hg.start hk hs hb' (by simpa using hn')
    (fun c hc d hd _ _ => addrOf_owned (.inl hc) (.inl hd)) (by simpa using hl')
  refine ⟨b', ?_, hg, hbm, hlists, hL'⟩
  unfold coalesceBuddy
  have hmin : ∀ x y : Nat, (if x > y then y else x) = min x y := by
    intro x y
    rw [Nat.min_def]
    split <;> split <;> omega
  simp only [he, Option.bind_eq_bind, Option.bind_some, pure, addrOf_half, hmin]

/-! ## `free` -/

/-- After the flip of `returnBlock` the bit tells whether the buddy is free. -/
theorem flipBit_isBuddyFree (h : Rep b H) (hi : (k, i) ∈ H.live) (hk : k < 12) :
    (b.flipBit (pairIndex k (i / 2))).isBuddyFree (pairIndex k (i / 2)) = true ↔
      (k, sib i) ∈ H.free := by
  have hfit := H.live_fits hi
  have hfree := H.not_free hi
  have hb : Bits (b.flipBit (pairIndex k (i / 2))) (insert (k, i) H.free) :=
    h.bits.flip hk hfit.2 (fun c hne => by simp [Set.mem_insert_iff, hne]) (by simp [hfree])
  have := hb.pair k (i / 2) hk (pair_lt hk hfit.2)
  rw [isBuddyFree_eq, Bool.not_eq_true', ← Bool.not_eq_true, this]
  rcases Nat.mod_two_eq_zero_or_one i with h0 | h0
  · rw [show sib i = i + 1 by simp [sib, h0], show 2 * (i / 2) = i by omega]
    simp [Set.mem_insert_iff]
  · rw [show sib i = i - 1 by simp [sib, h0], show 2 * (i / 2) = i - 1 by omega,
      show i - 1 + 1 = i by omega]
    simp [Set.mem_insert_iff, show i - 1 ≠ i by omega]

/-- The outcome of `returnBlock`: the block is joined with its free buddy, or put on its list. -/
theorem returnBlock_rep (h : Rep b H) (hL : FreeLists b L) (hi : (k, i) ∈ H.live) :
    ∃ r b', b.returnBlock k (b.addrOf (k, i)) = some (r, b') ∧ SameGeom b b' ∧
      ((r = none ∧ Rep b' (H.give hi) ∧
          FreeLists b' (update L k (b.addrOf (k, i) :: L k))) ∨
        ∃ (hk : k < 12) (hs : (k, sib i) ∈ H.free),
          r = some (b.addrOf (k + 1, i / 2)) ∧ Rep b' (H.merge hk hi hs) ∧
          FreeLists b' (update L k ((L k).erase (b.addrOf (k, sib i))))) := by
  have hfit := H.live_fits hi
  have hk : k ≤ 12 := hfit.1
  have hfree := H.not_free hi
  -- no list holds the block that is given back
  have hfresh : ∀ c ∈ H.free, c.1 ≤ 12 → b.addrOf c ≠ b.addrOf (k, i) := fun c hc _ he =>
    hfree (addrOf_owned (.inl hc) (.inr hi) he ▸ hc)
  have hnot : ∀ j ≤ 12, b.addrOf (k, i) ∉ L j := by
    intro j hj ha
    obtain ⟨i', hi', he⟩ := (hL.mem_iff h.lists hj _).1 ha
    exact hfresh _ hi' hj he.symm
  unfold returnBlock
  rw [h.order]
  by_cases hk12 : k = 12
  · subst hk12
    rw [if_pos rfl]
    refine ⟨_, _, rfl, sameGeom_addBlock _ _ _,
      .inl ⟨rfl, ⟨h.order, h.lists.add hfresh, ?_, ?_⟩, hL.add hnot⟩⟩
    · refine h.bits.congr rfl fun k' j hk' => ?_
      have : ∀ m, (k', m) ≠ (12, i) := fun m he => by
        simp only [Prod.mk.injEq] at he; omega
      simp [State.give, Set.mem_insert_iff, this]
    · exact h.coalesced.give hi fun hlt => absurd hlt (by omega)
  · have hlt : k < 12 := by omega
    simp only [if_neg hk12, getIndex_addrOf h.order]
    -- after the flip the bits count the block as free
    have hb : Bits (b.flipBit (pairIndex k (i / 2))) (insert (k, i) H.free) :=
      h.bits.flip hlt hfit.2 (fun c hne => by simp [Set.mem_insert_iff, hne]) (by simp [hfree])
    have hl : Lists (b.flipBit (pairIndex k (i / 2))) H.free := h.lists.congr rfl rfl rfl
    have hN : (b.flipBit (pairIndex k (i / 2))).maxOrder = 12 := h.order
    have hg : SameGeom b (b.flipBit (pairIndex k (i / 2))) := sameGeom_flipBit _ _
    have hbit := flipBit_isBuddyFree h hi hlt
    by_cases hs : (k, sib i) ∈ H.free
    · rw [if_pos (hbit.2 hs)]
      obtain ⟨b', he, hg', hbm, hl', hL'⟩ := coalesceBuddy_rep hN (hL.congr rfl rfl) hl hk hi hs
      rw [hg.addrOf, hg.addrOf] at he
      refine ⟨_, b', he, hg.trans hg', .inr ⟨hlt, hs, rfl, ⟨hg'.order.trans hN, hl', ?_,
        h.coalesced.merge hlt hi hs⟩, hL'⟩⟩
      refine hb.congr hbm fun k' j _ => ?_
      simp only [State.merge]
      -- both buddies count as free before, none after
      by_cases hp : k' = k ∧ j = i / 2
      · obtain ⟨rfl, rfl⟩ := hp
        rcases Nat.mod_two_eq_zero_or_one i with h0 | h0
        · rw [show sib i = i + 1 by simp [sib, h0]] at hs ⊢
          rw [show 2 * (i / 2) = i by omega]
          simp [Set.mem_insert_iff, hs, hfree]
        · rw [show sib i = i - 1 by simp [sib, h0]] at hs ⊢
          rw [show 2 * (i / 2) = i - 1 by omega, show i - 1 + 1 = i by omega]
          simp [Set.mem_insert_iff, hs, hfree]
      · have : ∀ m, m / 2 = j → (k', m) ≠ (k, i) ∧ (k', m) ≠ (k, sib i) := by
          intro m hm
          simp only [ne_eq, Prod.mk.injEq, not_and]
          refine ⟨fun h1 h2 => hp ⟨h1, by omega⟩, fun h1 h2 => hp ⟨h1, ?_⟩⟩
          rw [← hm, h2, sib_half]
        have h1 := this (2 * j) (by omega)
        have h2 := this (2 * j + 1) (by omega)
        simp [Set.mem_insert_iff, h1, h2]
    · rw [if_neg fun h => hs (hbit.1 h)]
      refine ⟨_, _, rfl, hg.trans (sameGeom_addBlock _ _ _),
        .inl ⟨rfl, ⟨hN, ?_, hb.congr rfl fun _ _ _ => Iff.rfl, h.coalesced.give hi fun _ => hs⟩,
          FreeLists.add (hL.congr rfl rfl) hnot⟩⟩
      have := hl.add (i := i) (fun c hc hc' => by rw [hg.addrOf, hg.addrOf]; exact hfresh c hc hc')
      rwa [hg.addrOf] at this

/-- `free` of order `k` put the block `p` in front of list `m`, and listed no other block. -/
structure Placed (L L' : Nat → List Nat) (k m p : Nat) : Prop where
  le : k ≤ m
  placed : L' m = p :: L m
  sub : ∀ j, k ≤ j → j < m → L' j ⊆ L j
  same : ∀ j, j < k ∨ m < j → L' j = L j

theorem freeLoop_rep (h : Rep b H) (hL : FreeLists b L) (hi : (k, i) ∈ H.live)
    (hn : n + k = 13) :
    ∃ b' H', b.freeLoop n k (b.addrOf (k, i)) = some b' ∧ SameGeom b b' ∧ Rep b' H' ∧
      H'.live = H.live \ {(k, i)} ∧ ∃ t ≤ 12, ∃ L' p, FreeLists b' L' ∧ Placed L L' k t p := by
  induction n generalizing b H k i L with
  | zero =>
    have := (H.live_fits hi).1
    simp only at this
    omega
  | succ n ih =>
    unfold freeLoop
    obtain ⟨r, b', he, hg, ⟨rfl, hr, hL'⟩ | ⟨hk, hs, rfl, hr, hL₁⟩⟩ := returnBlock_rep h hL hi
    · simp only [he]
      refine ⟨b', _, rfl, hg, hr, rfl, k, by omega, _, _, hL', Nat.le_refl k,
        Function.update_self _ _ _, fun j _ _ => by omega,
        fun j hj => Function.update_of_ne (by omega) _ _⟩
    · simp only [he]
      have hi' : (k + 1, i / 2) ∈ (H.merge hk hi hs).live := .inl rfl
      obtain ⟨b'', H', he', hg', hr', hl', t, ht, L', p, hL', hp⟩ := ih hr hL₁ hi' (by omega)
      rw [hg.addrOf] at he'
      refine ⟨b'', H', he', hg.trans hg', hr', ?_, t, ht, L', p, hL', ?_⟩
      · have hn' : (k + 1, i / 2) ∉ H.live \ {(k, i)} :=
          fun hm => H.parent_not_owned (.inr hi) (.inr hm.1)
        rw [hl']
        simp only [State.merge]
        rw [Set.insert_sdiff_of_mem _ (Set.mem_singleton _), Set.sdiff_singleton_eq_self hn']
      · have hne := hp.le
        refine ⟨by omega, ?_, fun j hkj hjt => ?_, fun j hj => ?_⟩
        · rw [hp.placed, Function.update_of_ne (by omega)]
        · by_cases hjk : j = k
          · subst hjk
            rw [hp.same j (by omega), Function.update_self]
            exact List.erase_subset
          · have := hp.sub j (by omega) hjt
            rwa [Function.update_of_ne hjk] at this
        · rw [hp.same j (by omega), Function.update_of_ne (by omega)]

theorem free_rep (h : Rep b H) (hL : FreeLists b L) (hi : (k, i) ∈ H.live) :
    ∃ b' H', b.free (some (b.addrOf (k, i))) k = some (0, b') ∧ SameGeom b b' ∧ Rep b' H' ∧
      H'.live = H.live \ {(k, i)} ∧ ∃ t ≤ 12, ∃ L' p, FreeLists b' L' ∧ Placed L L' k t p := by
  have hk : k ≤ 12 := (H.live_fits hi).1
  obtain ⟨b', H', he, hrest⟩ := freeLoop_rep h hL hi (n := 13 - k) (by omega)
  refine ⟨b', H', ?_, hrest⟩
  unfold free
  simp only [h.order, he, Option.map_some]

end SlabKernel.Buddy
