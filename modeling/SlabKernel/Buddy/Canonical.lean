import SlabKernel.Buddy.Teardown

/-!
# The live blocks determine the allocator

Two states that represent the same live blocks have the same bitmap, and each free list of one is a
permutation of the other's (`Inv.canonical`): both are coalesced tilings, which their live blocks
determine (`Dyadic.State.Coalesced.free_eq`).

* `frees_commute`: the order in which live blocks are freed changes the order of the lists only.
* `free_undoes_alloc`: `free` right after `alloc` restores the order of the lists too. `alloc` takes
  the first block of the first list that is not empty and `free` puts one block in front of a list
  (`Taken`, `Placed`); by `Inv.canonical` these are the same list and the same block.
-/

namespace SlabKernel.Buddy

open PtrList Dyadic Runs

variable {b b' b₁ : Buddy} {live live' : List (Nat × Nat)} {k : Nat} {L L' L'' : Nat → List Nat}

/-- The bits are determined by the live blocks. -/
theorem Rep.bitmap_eq {H H' : State 12} (h : Rep b H) (h' : Rep b' H') (hl : H'.live = H.live) :
    b'.bitmap = b.bitmap := by
  have hfree := h.coalesced.free_eq h'.coalesced hl
  refine bitmap_ext fun n => ?_
  by_cases hn : n < 2 ^ 12 - 1
  · obtain ⟨k, hk, j, hj, rfl⟩ := exists_pairIndex hn
    rw [Bool.eq_iff_iff, h'.bits.pair k j hk hj, h.bits.pair k j hk hj, hfree]
  · rw [h'.bits.spare n (by omega), h.bits.spare n (by omega)]

/-- States with the same live blocks differ in the order of their free lists only. -/
theorem Inv.canonical (h : Inv b live) (h' : Inv b' live') (hs : SameGeom b b')
    (hp : live'.Perm live) :
    b'.bitmap = b.bitmap ∧
    ∀ L L', FreeLists b L → FreeLists b' L' → ∀ k ≤ 12, (L' k).Perm (L k) := by
  obtain ⟨-, H, hr, hm⟩ := h
  obtain ⟨-, H', hr', hm'⟩ := h'
  have hlive : H'.live = H.live := by
    ext ⟨k, i⟩
    have h₁ : (b.addrOf (k, i), k) ∈ live ↔ (k, i) ∈ H.live := by
      rw [hm]
      exact ⟨fun ⟨j, hj, he⟩ => addrOf_inj he ▸ hj, fun hi => ⟨i, hi, rfl⟩⟩
    have h₂ : (b'.addrOf (k, i), k) ∈ live' ↔ (k, i) ∈ H'.live := by
      rw [hm']
      exact ⟨fun ⟨j, hj, he⟩ => addrOf_inj he ▸ hj, fun hi => ⟨i, hi, rfl⟩⟩
    rw [← h₁, ← h₂, hs.addrOf, hp.mem_iff]
  refine ⟨hr.bitmap_eq hr' hlive, fun L L' hL hL' k hk => ?_⟩
  refine (List.perm_ext_iff_of_nodup (Linked.nodup (hL' k hk)) (Linked.nodup (hL k hk))).2
    fun a => ?_
  rw [hL.mem_iff hr.lists hk, hL'.mem_iff hr'.lists hk,
    hr.coalesced.free_eq hr'.coalesced hlive]
  simp only [hs.addrOf]

theorem Inv.exists_freeLists (h : Inv b live) : ∃ L, FreeLists b L := by
  obtain ⟨-, H, hr, -⟩ := h
  exact hr.lists.exists_freeLists

/-! ## Frees in another order -/

theorem Inv.freeAll_of_sub {l : List (Nat × Nat)} (h : Inv b live) (hnd : l.Nodup)
    (hsub : ∀ q ∈ l, q ∈ live) :
    ∃ b', b.freeAll l = some b' ∧ SameGeom b b' ∧ Inv b' (live.diff l) := by
  refine Inv.freeAll (h.perm ?_)
  exact (List.subperm_append_diff_self_of_count_le (List.subperm_ext_iff.1
    (hnd.subperm hsub))).symm

/-- **Buddy frees commute.** In every state of a run, freeing the same live blocks in two orders
leads to the same bitmap and to the same set of blocks on each list; freeing all of them leaves one
block of the highest order and a clear bitmap. -/
theorem frees_commute {heap heap' : HeapBounds} {space : Nat} {blockNum : Int} {b₀ : Buddy}
    {calls : List Call} {s : Client} {l l' : List (Nat × Nat)}
    (hinit : buddyInit heap 12 space blockNum = some (b₀, heap'))
    (hrun : Run Client.Ok Client.step ⟨b₀, []⟩ calls s) (hnd : l.Nodup)
    (hsub : ∀ q ∈ l, q ∈ s.live) (hp : l.Perm l') :
    ∃ b₁ b₂ L₁ L₂, s.buddy.freeAll l = some b₁ ∧ s.buddy.freeAll l' = some b₂ ∧
      SameGeom b₀ b₁ ∧ SameGeom b₀ b₂ ∧ b₁.bitmap = b₂.bitmap ∧
      FreeLists b₁ L₁ ∧ FreeLists b₂ L₂ ∧ (∀ k ≤ 12, (L₁ k).Perm (L₂ k)) ∧
      (l.Perm s.live → Unused b₁ ∧ Unused b₂) := by
  obtain ⟨hg, hinv⟩ := Client.run_inv (Inv.init hinit) hrun
  obtain ⟨b₁, he₁, hg₁, h₁⟩ := hinv.freeAll_of_sub hnd hsub
  obtain ⟨b₂, he₂, hg₂, h₂⟩ := hinv.freeAll_of_sub (hp.nodup_iff.1 hnd) fun q hq =>
    hsub q (hp.mem_iff.2 hq)
  have hsame : SameGeom b₂ b₁ := ⟨hg₁.start.trans hg₂.start.symm, hg₁.finish.trans hg₂.finish.symm,
    hg₁.order.trans hg₂.order.symm⟩
  have hleft : s.live.diff l = s.live.diff l' := hp.diff_left _
  rw [← hleft] at h₂
  obtain ⟨hbm, hlists⟩ := h₂.canonical h₁ hsame (.refl _)
  obtain ⟨L₁, hL₁⟩ := h₁.exists_freeLists
  obtain ⟨L₂, hL₂⟩ := h₂.exists_freeLists
  refine ⟨b₁, b₂, L₁, L₂, he₁, he₂, hg.trans hg₁, hg.trans hg₂, hbm, hL₁, hL₂,
    fun k hk => hlists L₂ L₁ hL₂ hL₁ k hk, fun hall => ?_⟩
  have hnil : s.live.diff l = [] := by
    refine List.eq_nil_iff_forall_not_mem.2 fun q hq => ?_
    rw [hinv.1.mem_sdiff_iff] at hq
    exact hq.2 (hall.mem_iff.2 hq.1)
  rw [hnil] at h₁ h₂
  exact ⟨h₁.unused, h₂.unused⟩

/-- Three blocks, freed in two orders that merge along different paths. -/
theorem frees_commute_heap128 : ∃ b₀ heap' s b₁ b₂,
    buddyInit heap128 12 heap128.startAddr 4096 = some (b₀, heap') ∧
    Run Client.Ok Client.step ⟨b₀, []⟩ [.alloc 0, .alloc 0, .alloc 1] s ∧
    s.buddy.freeAll [(0x80011000, 0), (0x80012000, 0), (0x80013000, 1)] = some b₁ ∧
    s.buddy.freeAll [(0x80013000, 1), (0x80012000, 0), (0x80011000, 0)] = some b₂ ∧
    Unused b₁ ∧ Unused b₂ := by
  have hrun : ∃ b₀ heap' s, buddyInit heap128 12 heap128.startAddr 4096 = some (b₀, heap') ∧
      Run Client.Ok Client.step ⟨b₀, []⟩ [.alloc 0, .alloc 0, .alloc 1] s ∧
      s.live = [(0x80013000, 1), (0x80012000, 0), (0x80011000, 0)] :=
    ⟨_, _, _, rfl, .cons trivial rfl (.cons trivial rfl (.cons trivial rfl .nil)), rfl⟩
  obtain ⟨b₀, heap', s, hinit, hrun, hlive⟩ := hrun
  obtain ⟨b₁, b₂, -, -, he₁, he₂, -, -, -, -, -, -, hall⟩ :=
    frees_commute (l := [(0x80011000, 0), (0x80012000, 0), (0x80013000, 1)])
      hinit hrun (by decide) (by rw [hlive]; decide)
      (show List.Perm _ [(0x80013000, 1), (0x80012000, 0), (0x80011000, 0)] by decide)
  obtain ⟨h₁, h₂⟩ := hall (by rw [hlive]; decide)
  exact ⟨b₀, heap', s, b₁, b₂, hinit, hrun, he₁, he₂, h₁, h₂⟩

/-! ## `free` right after `alloc` -/

/-- If the lists are permuted after all, the block put back is the block taken, in its place. -/
theorem Placed.restores {m t p q : Nat} (ht : Taken L L' k m p) (hp : Placed L' L'' k t q)
    (hnd : (L m).Nodup) (hperm : ∀ j ≤ 12, (L'' j).Perm (L j)) (hm : m ≤ 12) (ht12 : t ≤ 12) :
    ∀ j ≤ 12, L'' j = L j := by
  rw [ht.taken] at hnd
  have hpm : p ∈ L'' m := (hperm m hm).mem_iff.2 (by rw [ht.taken]; exact .head _)
  -- the block goes back to the list it came from
  obtain rfl : t = m := by
    rcases Nat.lt_trichotomy t m with hlt | he | hlt
    · have := hperm t ht12
      rw [ht.empty t hp.le hlt, hp.placed] at this
      exact absurd this.length_eq (by simp)
    · exact he
    · exact absurd (hp.sub m ht.le hlt hpm) (List.nodup_cons.1 hnd).1
  intro j hj
  rcases Nat.lt_trichotomy j t with hlt | rfl | hlt
  · rcases Nat.lt_or_ge j k with hjk | hkj
    · rw [hp.same j (.inl hjk), ht.same j (.inl hjk)]
    · have := hperm j hj
      rw [ht.empty j hkj hlt] at this ⊢
      exact List.perm_nil.1 this
  · have := hperm j hj
    rw [hp.placed, ht.taken] at this ⊢
    -- the two heads are the one element the permuted lists do not share
    have hmem : q ∈ p :: L' j := this.mem_iff.1 (.head _)
    have hnd' : (q :: L' j).Nodup := this.nodup_iff.2 hnd
    rcases List.mem_cons.1 hmem with rfl | hq
    · rfl
    · exact absurd hq (List.nodup_cons.1 hnd').1
  · rw [hp.same j (.inr hlt), ht.same j (.inr hlt)]

/-- **`free` undoes `alloc` exactly.** In every state of a run, `free` right after a successful
`alloc` restores the bitmap and every list, the order of the blocks included. -/
theorem free_undoes_alloc {heap heap' : HeapBounds} {space : Nat} {blockNum : Int} {b₀ : Buddy}
    {calls : List Call} {s : Client} {p : Nat}
    (hinit : buddyInit heap 12 space blockNum = some (b₀, heap'))
    (hrun : Run Client.Ok Client.step ⟨b₀, []⟩ calls s) (hk : k ≤ 12)
    (halloc : s.buddy.alloc k = (some p, b₁)) :
    ∃ b₂, b₁.free (some p) k = some (0, b₂) ∧ SameGeom s.buddy b₂ ∧
      b₂.bitmap = s.buddy.bitmap ∧ ∃ L, FreeLists s.buddy L ∧ FreeLists b₂ L := by
  obtain ⟨-, hinv⟩ := Client.run_inv (Inv.init hinit) hrun
  obtain ⟨L, hL⟩ := hinv.exists_freeLists
  obtain ⟨-, H, hr, -⟩ := id hinv
  obtain ⟨m, hm, L', hL', ht⟩ := alloc_taken hr hL hk (congrArg Prod.fst halloc)
  rw [halloc] at hL'
  rcases hinv.alloc k with he | ⟨p', b', he, hg, -, -, hinv₁⟩
  · rw [halloc] at he
    exact absurd (congrArg Prod.fst he) (by simp)
  rw [halloc, Prod.mk.injEq, Option.some.injEq] at he
  obtain ⟨rfl, rfl⟩ := he
  rw [Int.toNat_natCast] at hinv₁
  obtain ⟨-, H₁, hr₁, hm₁⟩ := id hinv₁
  obtain ⟨i, hi, ha⟩ := (hm₁ (p, k)).1 (.head _)
  simp only at hi ha
  obtain ⟨b₂, H₂, he₂, hg₂, hr₂, -, t, ht12, L'', q, hL'', hp⟩ := free_rep hr₁ hL' hi
  rw [← ha] at he₂
  obtain ⟨b₂', he₂', -, hinv₂⟩ := hinv₁.free (.head _)
  rw [he₂, Option.some.injEq, Prod.mk.injEq] at he₂'
  obtain ⟨-, rfl⟩ := he₂'
  rw [List.erase_cons_head] at hinv₂
  -- the live blocks are what they were, so the lists are permuted at most
  obtain ⟨hbm, hperm⟩ := hinv.canonical hinv₂ (hg.trans hg₂) (.refl _)
  have hsame := hp.restores ht (Linked.nodup (hL m hm)) (hperm L L'' hL hL'') hm ht12
  refine ⟨b₂, he₂, hg.trans hg₂, hbm, L, hL, fun j hj => ?_⟩
  rw [← hsame j hj]
  exact hL'' j hj

/-- A page taken from the untouched heap: twelve splits, twelve merges. -/
theorem free_undoes_alloc_heap128 : ∃ b₀ heap' b₁ b₂,
    buddyInit heap128 12 heap128.startAddr 4096 = some (b₀, heap') ∧
    b₀.alloc (0 : Nat) = (some 0x80011000, b₁) ∧ b₁.free (some 0x80011000) 0 = some (0, b₂) ∧
    b₂.bitmap = b₀.bitmap ∧ ∃ L, FreeLists b₀ L ∧ FreeLists b₂ L := by
  have halloc : ∃ b₀ heap' b₁, buddyInit heap128 12 heap128.startAddr 4096 = some (b₀, heap') ∧
      b₀.alloc (0 : Nat) = (some 0x80011000, b₁) := ⟨_, _, _, rfl, rfl⟩
  obtain ⟨b₀, heap', b₁, hinit, halloc⟩ := halloc
  obtain ⟨b₂, hfree, -, hbm, hlists⟩ :=
    free_undoes_alloc (s := ⟨b₀, []⟩) hinit .nil (Nat.zero_le 12) halloc
  exact ⟨b₀, heap', b₁, b₂, hinit, halloc, hfree, hbm, hlists⟩

end SlabKernel.Buddy
