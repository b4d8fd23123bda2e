import Mathlib.Order.Bounds.Basic
import SlabKernel.Slab.Create

/-!
# The size of a slab

`getOrder` counts the slots of a slab, and doubles the slab while there is none. It ends with the
least order that has room for a slot (`slotsOf_zero_iff`, `room_mono`) and with the greatest number of
slots of that order (`slotsOf_greatest`). No product, sum or shift on the way leaves the 64 bits
(`test_lt`).
-/

namespace SlabKernel

namespace Cache

variable {slotSize k n : Nat}

/-- `n` slots with their entries of the free array fit behind the header of a slab of the order
`k`. -/
def Fits (slotSize k n : Nat) : Prop := n * (slotSize + 4) + sizeofSlab ≤ blockSize * 2 ^ k

theorem header_le (k : Nat) : sizeofSlab ≤ blockSize * 2 ^ k := by
  have h1 : 1 ≤ 2 ^ k := Nat.one_le_two_pow
  unfold sizeofSlab blockSize
  omega

theorem slotsOf_greatest (slotSize k : Nat) :
    IsGreatest {n | Fits slotSize k n} (slotsOf slotSize k) := by
  have hle : ∀ n, Fits slotSize k n ↔ n ≤ slotsOf slotSize k := by
    intro n
    have := header_le k
    unfold Fits slotsOf
    rw [Nat.le_div_iff_mul_le (by omega : 0 < slotSize + 4), Nat.mul_comm (2 ^ k)]
    omega
  constructor
  · exact (hle _).2 (Nat.le_refl _)
  · intro n hn
    exact (hle n).1 hn

theorem slotsOf_zero_iff : slotsOf slotSize k = 0 ↔ ¬ Fits slotSize k 1 := by
  have h := slotsOf_greatest slotSize k
  constructor
  · intro hz hfits
    have := h.2 hfits
    omega
  · intro hn
    by_contra hpos
    refine hn ((Nat.add_le_add_right (Nat.mul_le_mul_right _ ?_) _).trans h.1)
    exact Nat.pos_of_ne_zero hpos

/-- A slab of a higher order has no less room. -/
theorem room_mono {j : Nat} (hjk : j ≤ k) (h : Fits slotSize j n) : Fits slotSize k n :=
  h.trans (Nat.mul_le_mul_left _ (Nat.pow_le_pow_right (by decide) hjk))

/-- The inner loop tests `n` when `n - 1` slots fit; then no term of the test overflows. -/
theorem test_lt (hs : slotSize ≤ 2 ^ 62) (hk : k ≤ 51) (hn : n = 0 ∨ Fits slotSize k (n - 1)) :
    n * slotSize + n * 4 + sizeofSlab < 2 ^ 64 := by
  have hpow : 2 ^ k ≤ 2 ^ 51 := Nat.pow_le_pow_right (by decide) hk
  cases hn with
  | inl hz =>
    subst hz
    unfold sizeofSlab
    omega
  | inr hfits =>
    cases n with
    | zero =>
      unfold sizeofSlab
      omega
    | succ n =>
      rw [Nat.add_sub_cancel] at hfits
      unfold Fits at hfits
      rw [← Nat.mul_add, Nat.succ_mul]
      unfold blockSize at hfits
      omega

/-- **The slabs have the best size.** For every size of slots, `getOrder` ends with the least order
that has room for a slot, and with the greatest number of slots that fit; header, free array and all
slots lie in the slab. Up to that order the size of the slab stays in the 64 bits, and so does every
sum that the inner loop compares with it. -/
theorem getOrder_optimal (hs : slotSize ≤ 2 ^ 62) :
    ∃ k n, getOrder slotSize = some (k, n) ∧
      IsLeast {k | slotSize + 4 + sizeofSlab ≤ blockSize * 2 ^ k} k ∧
      IsGreatest {n | n * (slotSize + 4) + sizeofSlab ≤ blockSize * 2 ^ k} n ∧ 1 ≤ n ∧
      sizeofSlab + 4 * n + n * slotSize ≤ 2 ^ k * blockSize ∧
      ∀ j ≤ k, 2 ^ j * blockSize < 2 ^ 64 ∧
        ∀ i, i = 0 ∨ Fits slotSize j (i - 1) → i * slotSize + i * 4 + sizeofSlab < 2 ^ 64 := by
  obtain ⟨k, horder, hpos, hk, hprev⟩ := getOrder_spec (show slotSize + 76 ≤ 2 ^ 63 by omega)
  have hone : ∀ j, Fits slotSize j 1 ↔ slotSize + 4 + sizeofSlab ≤ blockSize * 2 ^ j := fun j => by
    unfold Fits
    rw [Nat.one_mul]
  refine ⟨k, slotsOf slotSize k, horder, ⟨?_, fun j hj => ?_⟩, slotsOf_greatest slotSize k, hpos,
    slotsOf_fits, fun j hj => ⟨?_, fun i hi => test_lt hs (hj.trans hk) hi⟩⟩
  · by_contra hcon
    have hz := slotsOf_zero_iff.2 fun hfits => hcon ((hone k).1 hfits)
    omega
  · -- a lower order would have given a slot already at `k - 1`
    by_contra hlt
    cases hprev with
    | inl hz =>
      subst hz
      exact hlt (Nat.zero_le j)
    | inr hz =>
      exact slotsOf_zero_iff.1 hz (room_mono (by omega) ((hone j).2 hj))
  · have hpow : 2 ^ j ≤ 2 ^ 51 := Nat.pow_le_pow_right (by decide) (hj.trans hk)
    unfold blockSize
    omega

/-- One object of 4030 bytes does not fit in a page, and two fit in two pages. -/
theorem getOrder_optimal_4030 : getOrder 4030 = some (1, 2) ∧
    IsLeast {k | 4030 + 4 + sizeofSlab ≤ blockSize * 2 ^ k} 1 ∧
    IsGreatest {n | n * (4030 + 4) + sizeofSlab ≤ blockSize * 2 ^ 1} 2 := by
  obtain ⟨k, n, h, hk, hn, -⟩ := getOrder_optimal (show 4030 ≤ 2 ^ 62 by decide)
  have he : getOrder 4030 = some (1, 2) := by decide +kernel
  rw [he, Option.some.injEq, Prod.mk.injEq] at h
  obtain ⟨rfl, rfl⟩ := h
  exact ⟨he, hk, hn⟩

end Cache

end SlabKernel
