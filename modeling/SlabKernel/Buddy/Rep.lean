import Mathlib.Data.Nat.Log
import SlabKernel.Buddy.Model
import SlabKernel.Lib.Dyadic
import SlabKernel.Lib.PtrList

/-!
# The buddy allocator's state as a dyadic tiling

For `MAX_ORDER = 12` the state of `Buddy` represents a set of free blocks `(k, i)` of
`Dyadic.State 12`, the block `(k, i)` being the one at `addrOf (k, i)`:

* `FreeLists b L`: the free lists are `L`; `Lists b F`: list `k` links exactly the addresses of the
  blocks of order `k` in `F`.
* `Bits b F`: the bit of a buddy pair is the exclusive or of its two memberships in `F`, any other
  bit is clear. The code flips the bits one step behind the lists, so `F` is not always the set on
  the lists.

Each field update of the code is one lemma about these (`FreeLists.add`, `Lists.add`,
`FreeLists.remove`, `Bits.flip`).
-/

namespace SlabKernel.Buddy

open Function (update)
open PtrList Dyadic

/-- The address of a block. -/
def addrOf (b : Buddy) (c : Block) : Nat := b.kernelStartAddr + c.2 * 2 ^ c.1 * blockSize

/-- The bit number `n` of the bitmap. -/
def bit (b : Buddy) (n : Nat) : Bool := (b.bitmap (n / 8)).getLsbD (n % 8)

/-- The bit number of the pair `j` of order `k`. -/
def pairIndex (k j : Nat) : Nat := 2 ^ 12 - 2 ^ (12 - k) + j

variable {b b' : Buddy} {k i j n : Nat} {F F' : Set Block}

/-! ## Addresses and indices -/

theorem addrOf_inj (h : b.addrOf (k, i) = b.addrOf (k, j)) : i = j := by
  unfold addrOf blockSize at h
  have : i * 2 ^ k = j * 2 ^ k := by simp only at h; omega
  exact Nat.eq_of_mul_eq_mul_right (Nat.two_pow_pos k) this

theorem addrOf_lower (b : Buddy) (k i : Nat) : b.addrOf (k, 2 * i) = b.addrOf (k + 1, i) := by
  unfold addrOf
  rw [Nat.pow_succ, Nat.mul_comm 2 i, Nat.mul_assoc i 2, Nat.mul_comm 2]

theorem addrOf_upper (b : Buddy) (k i : Nat) :
    b.addrOf (k, 2 * i + 1) = b.addrOf (k + 1, i) + 2 ^ k * blockSize := by
  rw [← addrOf_lower]
  unfold addrOf
  simp only [Nat.add_mul, Nat.one_mul, Nat.add_assoc]

theorem addrOf_half (b : Buddy) (k i : Nat) :
    b.addrOf (k + 1, i / 2) = min (b.addrOf (k, i)) (b.addrOf (k, sib i)) := by
  have h1 := addrOf_lower b k (i / 2)
  have h2 := addrOf_upper b k (i / 2)
  rcases Nat.mod_two_eq_zero_or_one i with h | h
  · have hs : sib i = 2 * (i / 2) + 1 := by simp only [sib, h, if_true]; omega
    rw [hs, h2, show b.addrOf (k, i) = b.addrOf (k + 1, i / 2) by rw [← h1]; congr 2; omega]
    omega
  · have hs : sib i = 2 * (i / 2) := by simp only [sib, h, Nat.one_ne_zero, if_false]; omega
    rw [hs, h1, show b.addrOf (k, i) = b.addrOf (k + 1, i / 2) + 2 ^ k * blockSize by
      rw [← h2]; congr 2; omega]
    omega

theorem getIndex_addrOf (hN : b.maxOrder = 12) (k i : Nat) :
    b.getIndex (b.addrOf (k, i)) k = pairIndex k (i / 2) := by
  unfold getIndex addrOf pairIndex
  simp only [hN, Nat.add_sub_cancel_left, Nat.shiftRight_eq_div_pow]
  congr 1
  rw [show i * 2 ^ k * blockSize = i * 2 ^ (k + 12) by rw [Nat.pow_add, ← Nat.mul_assoc],
    show 12 + k + 1 = (k + 12) + 1 by omega, Nat.pow_succ 2 (k + 12),
    ← Nat.div_div_eq_div_mul, Nat.mul_div_cancel _ (Nat.two_pow_pos _)]

theorem pairIndex_inj {k' j' : Nat} (hk : k < 12) (hk' : k' < 12) (hj : j < 2 ^ (11 - k))
    (hj' : j' < 2 ^ (11 - k')) (h : pairIndex k j = pairIndex k' j') : k = k' ∧ j = j' := by
  unfold pairIndex at h
  -- the pairs of a lower order come before those of a higher one
  have key : ∀ {m m' : Nat}, m < m' → m' < 12 →
      2 ^ (12 - m) = 2 * 2 ^ (11 - m) ∧ 2 ^ (12 - m') ≤ 2 ^ (11 - m) ∧ 2 ^ (12 - m) ≤ 2 ^ 12 := by
    intro m m' h1 h2
    refine ⟨?_, Nat.pow_le_pow_right (by decide) (by omega), Nat.pow_le_pow_right (by decide)
      (by omega)⟩
    rw [← Nat.pow_succ', Nat.succ_eq_add_one, show 11 - m + 1 = 12 - m by omega]
  rcases Nat.lt_trichotomy k k' with hlt | rfl | hlt
  · have := key hlt hk'; omega
  · exact ⟨rfl, by omega⟩
  · have := key hlt hk; omega

theorem pairIndex_lt (hk : k < 12) (hj : j < 2 ^ (11 - k)) : pairIndex k j < 2 ^ 12 - 1 := by
  unfold pairIndex
  have h1 : 2 ^ (12 - k) = 2 * 2 ^ (11 - k) := by
    rw [← Nat.pow_succ', Nat.succ_eq_add_one, show 11 - k + 1 = 12 - k by omega]
  have h2 : 2 ^ (12 - k) ≤ 2 ^ 12 := Nat.pow_le_pow_right (by decide) (by omega)
  omega

/-- Every bit up to the last one belongs to a pair. -/
theorem exists_pairIndex (hn : n < 2 ^ 12 - 1) : ∃ k < 12, ∃ j < 2 ^ (11 - k), n = pairIndex k j := by
  have hlo := Nat.pow_pred_clog_lt_self (b := 2) (by decide) (x := 2 ^ 12 - n) (by omega)
  have hup := Nat.le_pow_clog (b := 2) (by decide) (2 ^ 12 - n)
  have h1 : 1 ≤ Nat.clog 2 (2 ^ 12 - n) := Nat.clog_pos (by decide) (by omega)
  have h12 : Nat.clog 2 (2 ^ 12 - n) ≤ 12 := Nat.clog_le_of_le_pow (by omega)
  generalize Nat.clog 2 (2 ^ 12 - n) = e at *
  have he : 2 ^ e = 2 * 2 ^ (e - 1) := by
    rw [← Nat.pow_succ', Nat.succ_eq_add_one, Nat.sub_add_cancel h1]
  refine ⟨12 - e, by omega, n - (2 ^ 12 - 2 ^ e), ?_, ?_⟩
  · rw [show 11 - (12 - e) = e - 1 by omega]
    rw [Nat.pred_eq_sub_one] at hlo
    omega
  · unfold pairIndex
    rw [show 12 - (12 - e) = e by omega]
    omega

/-! ## Bits -/

theorem isBuddyFree_eq (b : Buddy) (n : Nat) : b.isBuddyFree n = !b.bit n := by
  unfold isBuddyFree bit
  rw [← BitVec.twoPow_eq, BitVec.and_twoPow]
  have hn : n % 8 < 8 := Nat.mod_lt _ (by decide)
  cases h : (b.bitmap (n / 8)).getLsbD (n % 8)
  · simp
  · have h0 : BitVec.twoPow 8 (n % 8) ≠ 0#8 := by
      intro he
      have := congrArg (·.getLsbD (n % 8)) he
      simp [hn] at this
    simp [h0]

theorem flipBit_bit (b : Buddy) (n m : Nat) :
    (b.flipBit n).bit m = if m = n then !b.bit m else b.bit m := by
  unfold flipBit bit
  simp only [Function.update_apply]
  have hn : n % 8 < 8 := Nat.mod_lt _ (by decide)
  by_cases hd : m / 8 = n / 8
  · rw [if_pos hd, BitVec.getLsbD_xor, ← BitVec.twoPow_eq, BitVec.getLsbD_twoPow]
    by_cases hm : m % 8 = n % 8
    · have : m = n := by omega
      subst this
      simp [hn]
    · rw [if_neg (by intro h; exact hm (h ▸ rfl)), hd]
      simp [show n % 8 ≠ m % 8 from fun h => hm h.symm]
  · rw [if_neg hd, if_neg (by intro h; exact hd (h ▸ rfl))]

theorem bitmap_ext (h : ∀ n, b'.bit n = b.bit n) : b'.bitmap = b.bitmap := by
  funext n
  refine BitVec.eq_of_getLsbD_eq fun i hi => ?_
  have := h (n * 8 + i)
  unfold bit at this
  rwa [show (n * 8 + i) / 8 = n by omega, show (n * 8 + i) % 8 = i by omega] at this

/-- The bit of each buddy pair is the exclusive or of the memberships of its two blocks. -/
structure Bits (b : Buddy) (F : Set Block) : Prop where
  pair : ∀ k j, k < 12 → j < 2 ^ (11 - k) →
    (b.bit (pairIndex k j) = true ↔ ((k, 2 * j) ∈ F ↔ (k, 2 * j + 1) ∉ F))
  spare : ∀ n, 2 ^ 12 - 1 ≤ n → b.bit n = false

theorem Bits.congr (h : Bits b F) (hb : b'.bitmap = b.bitmap)
    (hF : ∀ k j, k < 12 → (((k, 2 * j) ∈ F ↔ (k, 2 * j + 1) ∉ F) ↔
      ((k, 2 * j) ∈ F' ↔ (k, 2 * j + 1) ∉ F'))) : Bits b' F' := by
  have hbit : ∀ n, b'.bit n = b.bit n := fun n => by
    unfold bit
    rw [hb]
  refine ⟨fun k j hk hj => ?_, fun n hn => ?_⟩
  · rw [← hF k j hk, ← h.pair k j hk hj, hbit]
  · rw [hbit, h.spare n hn]

theorem pair_lt (hk : k < 12) (hi : i < 2 ^ (12 - k)) : i / 2 < 2 ^ (11 - k) := by
  have : 2 ^ (12 - k) = 2 * 2 ^ (11 - k) := by
    rw [← Nat.pow_succ', Nat.succ_eq_add_one, show 11 - k + 1 = 12 - k by omega]
  omega

/-- Flipping the bit of the pair of `(k, i)` when the sets differ at `(k, i)` only. -/
theorem Bits.flip (h : Bits b F) (hk : k < 12) (hi : i < 2 ^ (12 - k))
    (hne : ∀ c, c ≠ (k, i) → (c ∈ F ↔ c ∈ F')) (hd : (k, i) ∈ F ↔ (k, i) ∉ F') :
    Bits (b.flipBit (pairIndex k (i / 2))) F' := by
  refine ⟨fun k' j' hk' hj' => ?_, fun n hn => ?_⟩
  swap
  · have := pairIndex_lt hk (pair_lt hk hi)
    rw [flipBit_bit, if_neg (by omega), h.spare n hn]
  rw [flipBit_bit]
  by_cases he : k' = k ∧ j' = i / 2
  · obtain ⟨rfl, rfl⟩ := he
    have hb := h.pair k' (i / 2) hk' hj'
    simp only [if_true, Bool.not_eq_true', ← Bool.not_eq_true, hb]
    rcases Nat.mod_two_eq_zero_or_one i with h0 | h0
    · have h2 := hne (k', 2 * (i / 2) + 1) (by simp; omega)
      rw [show 2 * (i / 2) = i by omega] at h2 ⊢
      rw [hd, h2]
      tauto
    · have h2 := hne (k', 2 * (i / 2)) (by simp; omega)
      rw [show 2 * (i / 2) + 1 = i by omega, hd, h2]
      tauto
  · rw [if_neg fun e => he (pairIndex_inj hk' hk hj' (pair_lt hk hi) e), h.pair k' j' hk' hj',
      hne (k', 2 * j') (by rintro ⟨⟩; exact he ⟨rfl, by omega⟩),
      hne (k', 2 * j' + 1) (by rintro ⟨⟩; exact he ⟨rfl, by omega⟩)]

/-! ## Lists -/

/-- `L` are the free lists of `b`. -/
def FreeLists (b : Buddy) (L : Nat → List Nat) : Prop :=
  ∀ k ≤ 12, Linked b.next (b.blocks k) (L k)

section
variable {L : Nat → List Nat} {l : List Nat} {a : Nat}

theorem FreeLists.congr (h : FreeLists b L) (hb : b'.blocks = b.blocks) (hn : b'.next = b.next) :
    FreeLists b' L := by
  unfold FreeLists
  rw [hb, hn]
  exact h

/-- `addBlock` of a block whose address is on no list. -/
theorem FreeLists.add (h : FreeLists b L) (hfresh : ∀ j ≤ 12, a ∉ L j) :
    FreeLists (b.addBlock a k) (update L k (a :: L k)) := by
  intro j hj
  by_cases hjk : j = k
  · subst hjk
    simp only [addBlock, Function.update_self]
    exact Linked.push (h j hj) (hfresh j hj)
  · simp only [addBlock, Function.update_of_ne hjk]
    exact Seg.update (h j hj) (hfresh j hj) _

/-- The lists after a change of the nodes of list `k`. -/
theorem FreeLists.modify (h : FreeLists b L) (hdis : ∀ j ≤ 12, j ≠ k → ∀ a ∈ L j, a ∉ L k)
    (hb : ∀ j, j ≠ k → b'.blocks j = b.blocks j) (hn : ∀ a, a ∉ L k → b'.next a = b.next a)
    (hl : Linked b'.next (b'.blocks k) l) : FreeLists b' (update L k l) := by
  intro j hj
  by_cases hjk : j = k
  · subst hjk
    rw [Function.update_self]
    exact hl
  · rw [Function.update_of_ne hjk, hb j hjk]
    exact Seg.congr (h j hj) fun a ha => hn a (hdis j hj hjk a ha)

end

/-- List `k` links exactly the addresses of the blocks of order `k` in `F`. -/
def Lists (b : Buddy) (F : Set Block) : Prop :=
  ∀ k ≤ 12, ∃ l, Linked b.next (b.blocks k) l ∧
    ∀ a, a ∈ l ↔ ∃ i, (k, i) ∈ F ∧ a = b.addrOf (k, i)

section
variable {L : Nat → List Nat}

theorem FreeLists.lists (hL : FreeLists b L)
    (hm : ∀ k ≤ 12, ∀ a, a ∈ L k ↔ ∃ i, (k, i) ∈ F ∧ a = b.addrOf (k, i)) : Lists b F :=
  fun k hk => ⟨L k, hL k hk, hm k hk⟩

theorem FreeLists.mem_iff (hL : FreeLists b L) (h : Lists b F) (hk : k ≤ 12) (a : Nat) :
    a ∈ L k ↔ ∃ i, (k, i) ∈ F ∧ a = b.addrOf (k, i) := by
  obtain ⟨l, hl, hm⟩ := h k hk
  rw [← Linked.unique (hL k hk) hl] at hm
  exact hm a

theorem Lists.exists_freeLists (h : Lists b F) : ∃ L, FreeLists b L := by
  choose L hL using h
  exact ⟨fun k => if hk : k ≤ 12 then L k hk else [], fun k hk => by
    simpa only [dif_pos hk] using (hL k hk).1⟩

end

theorem Lists.congr (h : Lists b F) (hs : b'.kernelStartAddr = b.kernelStartAddr)
    (hb : b'.blocks = b.blocks) (hn : b'.next = b.next) : Lists b' F := by
  unfold Lists addrOf at *
  rw [hs, hb, hn]
  exact h

/-- The list is empty iff no block of that order is free. -/
theorem Lists.none_iff (h : Lists b F) (hk : k ≤ 12) :
    b.blocks k = none ↔ ∀ i, (k, i) ∉ F := by
  obtain ⟨l, hl, hm⟩ := h k hk
  rw [Linked.none_iff hl, List.eq_nil_iff_forall_not_mem]
  constructor
  · intro hn i hi
    exact hn _ ((hm _).2 ⟨i, hi, rfl⟩)
  · intro hn a ha
    obtain ⟨i, hi, -⟩ := (hm a).1 ha
    exact hn i hi

/-- `addBlock` of a block whose address no listed block has. -/
theorem Lists.add (h : Lists b F)
    (hfresh : ∀ c ∈ F, c.1 ≤ 12 → b.addrOf c ≠ b.addrOf (k, i)) :
    Lists (b.addBlock (b.addrOf (k, i)) k) (insert (k, i) F) := by
  obtain ⟨L, hL⟩ := h.exists_freeLists
  have hnot : ∀ j ≤ 12, b.addrOf (k, i) ∉ L j := by
    intro j hj ha
    obtain ⟨i', hi', he⟩ := (hL.mem_iff h hj _).1 ha
    exact hfresh _ hi' hj he.symm
  refine (hL.add hnot).lists fun j hj a => ?_
  change _ ↔ ∃ i', (j, i') ∈ insert (k, i) F ∧ a = b.addrOf (j, i')
  simp only [Set.mem_insert_iff, Prod.mk.injEq]
  by_cases hjk : j = k
  · subst hjk
    simp only [Function.update_self, List.mem_cons, hL.mem_iff h hj, true_and]
    constructor
    · rintro (rfl | ⟨i', hi', rfl⟩)
      · exact ⟨i, .inl rfl, rfl⟩
      · exact ⟨i', .inr hi', rfl⟩
    · rintro ⟨i', rfl | hi', rfl⟩
      · exact .inl rfl
      · exact .inr ⟨i', hi', rfl⟩
  · simp only [Function.update_of_ne hjk, hL.mem_iff h hj, hjk, false_and, false_or]

/-- The list of order `k` after one of its blocks has been unlinked. -/
theorem FreeLists.remove {L : Nat → List Nat} (hL : FreeLists b L) (h : Lists b F)
    (hs : b'.kernelStartAddr = b.kernelStartAddr) (hk : k ≤ 12) (hi : (k, i) ∈ F)
    (hb : ∀ j, j ≠ k → b'.blocks j = b.blocks j) (hn : ∀ a, a ∉ L k → b'.next a = b.next a)
    (hdis : ∀ c ∈ F, ∀ d ∈ F, c.1 ≤ 12 → d.1 ≤ 12 → b.addrOf c = b.addrOf d → c = d)
    (hl : Linked b'.next (b'.blocks k) ((L k).erase (b.addrOf (k, i)))) :
    FreeLists b' (update L k ((L k).erase (b.addrOf (k, i)))) ∧ Lists b' (F \ {(k, i)}) := by
  have haddr : ∀ c, b'.addrOf c = b.addrOf c := fun c => by unfold addrOf; rw [hs]
  -- the nodes of another list are not touched
  have hother : ∀ j ≤ 12, j ≠ k → ∀ a ∈ L j, a ∉ L k := by
    intro j hj hjk a ha hak
    obtain ⟨i₁, hi₁, rfl⟩ := (hL.mem_iff h hj a).1 ha
    obtain ⟨i₂, hi₂, he⟩ := (hL.mem_iff h hk _).1 hak
    exact hjk (congrArg Prod.fst (hdis _ hi₁ _ hi₂ hj hk he))
  have hL' := hL.modify hother hb hn hl
  refine ⟨hL', hL'.lists fun j hj a => ?_⟩
  by_cases hjk : j = k
  · subst hjk
    rw [Function.update_self, (Linked.nodup (hL j hj)).mem_erase_iff, hL.mem_iff h hj]
    constructor
    · intro hx
      obtain ⟨hne, i', hi', rfl⟩ := hx
      exact ⟨i', ⟨hi', fun he => hne (by rw [he])⟩, (haddr _).symm⟩
    · intro hx
      obtain ⟨i', ⟨hi', hne⟩, rfl⟩ := hx
      rw [haddr]
      refine ⟨fun he => hne ?_, i', hi', rfl⟩
      rw [addrOf_inj he]; rfl
  · rw [Function.update_of_ne hjk, hL.mem_iff h hj]
    constructor
    · intro hx
      obtain ⟨i', hi', rfl⟩ := hx
      exact ⟨i', ⟨hi', fun he => hjk (congrArg Prod.fst he)⟩, (haddr _).symm⟩
    · intro hx
      obtain ⟨i', ⟨hi', -⟩, rfl⟩ := hx
      exact ⟨i', hi', haddr _⟩

end SlabKernel.Buddy
