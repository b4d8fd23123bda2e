import SlabKernel.Buddy.Tiling

/-!
# Giving every block back

`freeAll` gives the blocks of a list back one by one, each with its order (`Inv.freeAll`). When no
block is live, the allocator is as after `buddyInit`: one free block, every bit clear
(`Inv.unused`).
-/

namespace SlabKernel.Buddy

open Function (update)
open PtrList Dyadic

/-- `free` of every block of a list. -/
def freeAll (b : Buddy) : List (Nat × Nat) → Option Buddy
  | [] => some b
  | q :: l => (b.free (some q.1) q.2).bind fun r => freeAll r.2 l

/-- The allocator has a single free block, of the highest order. -/
structure Unused (b : Buddy) : Prop where
  order : b.maxOrder = 12
  blocks : ∀ k ≤ 12, b.blocks k = if k = 12 then some b.kernelStartAddr else none
  next : b.next b.kernelStartAddr = none
  bitmap : ∀ n, b.bitmap n = 0

variable {b b' b'' : Buddy} {live l l' : List (Nat × Nat)} {q : Nat × Nat} {n : Int}

theorem freeAll_cons (h : b.free (some q.1) q.2 = some (n, b')) (h' : b'.freeAll l = some b'') :
    b.freeAll (q :: l) = some b'' := by
  unfold freeAll
  rw [h, Option.bind_some]
  exact h'

theorem freeAll_append (h : b.freeAll l = some b') (h' : b'.freeAll l' = some b'') :
    b.freeAll (l ++ l') = some b'' := by
  induction l generalizing b with
  | nil =>
    obtain rfl := Option.some.inj h
    exact h'
  | cons q l ih =>
    unfold freeAll at h
    obtain ⟨r, hr, h⟩ := Option.bind_eq_some_iff.1 h
    exact freeAll_cons hr (ih h)

/-- Live blocks can be given back in any order. -/
theorem Inv.freeAll (h : Inv b (l ++ live)) :
    ∃ b', b.freeAll l = some b' ∧ SameGeom b b' ∧ Inv b' live := by
  induction l generalizing b with
  | nil => exact ⟨b, rfl, .rfl, h⟩
  | cons q l ih =>
    obtain ⟨b₁, he₁, hg₁, h₁⟩ := h.free (.head _)
    rw [List.cons_append, List.erase_cons_head] at h₁
    obtain ⟨b', he, hg, h'⟩ := ih h₁
    exact ⟨b', freeAll_cons he₁ he, hg₁.trans hg, h'⟩

/-- Without a live block the whole memory is one free block. -/
theorem Inv.unused (h : Inv b []) : b.Unused := by
  obtain ⟨-, H, hr, hm⟩ := h
  have hlive : ∀ c, c ∉ H.live := by
    intro c hc
    exact absurd ((hm (b.addrOf c, c.1)).2 ⟨c.2, hc, rfl⟩) List.not_mem_nil
  have htop : (12, 0) ∈ H.free := by
    obtain ⟨⟨k, i⟩, hc, hk⟩ := (hr.coalesced.exists_free_iff (k := 12)).2
      ⟨0, ⟨Nat.le_refl 12, by decide⟩, fun x _ c hc => absurd hc (hlive c)⟩
    have hfit := H.free_fits hc
    obtain ⟨h1, h2⟩ := hfit
    obtain rfl : k = 12 := Nat.le_antisymm h1 hk
    rw [Nat.sub_self, Nat.pow_zero, Nat.lt_one_iff] at h2
    simp only at h2
    rwa [h2] at hc
  -- any other free block would lie in the largest one
  have honly : ∀ c ∈ H.free, c = (12, 0) := by
    intro c hc
    apply H.owned_inj (.inl hc) (.inl htop) (covers_first c.1 c.2)
    obtain ⟨h1, h2⟩ := H.free_fits hc
    unfold Covers
    have hlt := Nat.mul_lt_mul_of_pos_right h2 (Nat.two_pow_pos c.1)
    rw [← Nat.pow_add, Nat.sub_add_cancel h1] at hlt
    simp only
    omega
  have hlow : ∀ k < 12, ∀ i, (k, i) ∉ H.free := by
    intro k hk i hi
    have := congrArg Prod.fst (honly _ hi)
    simp only at this
    omega
  obtain ⟨l, hl, hmem⟩ := hr.lists 12 (Nat.le_refl 12)
  have hl' : l = [b.kernelStartAddr] := by
    have haddr : b.addrOf (12, 0) = b.kernelStartAddr := by
      unfold addrOf
      rw [Nat.zero_mul, Nat.zero_mul, Nat.add_zero]
    refine List.perm_singleton.1 ((List.perm_ext_iff_of_nodup (Linked.nodup hl)
      (List.nodup_singleton _)).2 fun a => ?_)
    rw [hmem, List.mem_singleton, ← haddr]
    constructor
    · intro hx
      obtain ⟨i, hi, rfl⟩ := hx
      rw [honly _ hi]
    · intro he
      subst he
      exact ⟨0, htop, rfl⟩
  subst hl'
  refine ⟨hr.order, fun k hk => ?_, hl.2, fun n => ?_⟩
  · by_cases h12 : k = 12
    · rw [if_pos h12, h12]
      exact hl.1
    · rw [if_neg h12]
      exact (hr.lists.none_iff hk).2 (hlow k (by omega))
  · have hbit : ∀ m, b.bit m = false := by
      intro m
      by_cases hm : m < 2 ^ 12 - 1
      · obtain ⟨k, hk, j, hj, rfl⟩ := exists_pairIndex hm
        rw [← Bool.not_eq_true, hr.bits.pair k j hk hj]
        simp only [hlow k hk, not_false_eq_true, iff_true]
      · exact hr.bits.spare m (by omega)
    have hzero := bitmap_ext (b := { b with bitmap := fun _ => 0 }) fun m => by
      rw [hbit]
      simp [bit]
    exact congrFun hzero n

end SlabKernel.Buddy
