import Mathlib.Algebra.Order.Ring.Nat
import Mathlib.Data.Set.BooleanAlgebra
import Mathlib.Data.Set.Insert
import Mathlib.Order.CompletePartialOrder
import Mathlib.Tactic.Ring

/-!
# Dyadic tilings and the buddy discipline

A block `(k, i)` is the aligned run of `2 ^ k` units from `i * 2 ^ k` on. `Tiles N T`: the blocks
of `T` tile `[0, 2 ^ N)`. `State N` is the abstract state of a buddy allocator: a set of free and a
set of live blocks which together tile the space. Its four moves keep that by construction:
`take` and `give` change the owner of a block, `split` halves a live block and frees its upper
half, `merge` joins a live block with its free buddy.

`Coalesced H` (no two buddies are free) is kept by every move but a `give` next to a free buddy.
It makes the free set complete: an aligned run without a live unit lies in one free block
(`Coalesced.complete`); so the live blocks determine the free ones (`Coalesced.free_eq`).
-/

namespace Dyadic

/-- `(k, i)`: the `2 ^ k` units from `i * 2 ^ k` on. -/
abbrev Block := ℕ × ℕ

/-- The unit `x` lies in the block. -/
def Covers (b : Block) (x : ℕ) : Prop := x / 2 ^ b.1 = b.2

/-- The block lies in `[0, 2 ^ N)`. -/
def Fits (N : ℕ) (b : Block) : Prop := b.1 ≤ N ∧ b.2 < 2 ^ (N - b.1)

/-- The other child of the same parent. -/
def sib (i : ℕ) : ℕ := if i % 2 = 0 then i + 1 else i - 1

variable {N k i j x : ℕ} {b c : Block}

/-! ## Blocks -/

theorem sib_sib (i : ℕ) : sib (sib i) = i := by grind [sib]

theorem sib_ne (i : ℕ) : sib i ≠ i := by grind [sib]

theorem sib_half (i : ℕ) : sib i / 2 = i / 2 := by grind [sib]

theorem half_eq_iff : j / 2 = i / 2 ↔ j = i ∨ j = sib i := by grind [sib]

@[simp] theorem sib_double (i : ℕ) : sib (2 * i) = 2 * i + 1 := by grind [sib]

@[simp] theorem sib_double_add_one (i : ℕ) : sib (2 * i + 1) = 2 * i := by grind [sib]

theorem covers_first (k i : ℕ) : Covers (k, i) (i * 2 ^ k) :=
  Nat.mul_div_cancel i (Nat.two_pow_pos k)

theorem covers_iff : Covers (k, i) x ↔ i * 2 ^ k ≤ x ∧ x < (i + 1) * 2 ^ k := by
  have := Nat.two_pow_pos k
  unfold Covers
  simp only
  rw [Nat.div_eq_iff this, Nat.add_mul, Nat.one_mul]
  omega

theorem Covers.half (h : Covers (k, i) x) : Covers (k + 1, i / 2) x := by
  unfold Covers at *
  simp only at *
  rw [Nat.pow_succ, ← Nat.div_div_eq_div_mul, h]

theorem covers_succ : Covers (k + 1, i) x ↔ Covers (k, 2 * i) x ∨ Covers (k, 2 * i + 1) x := by
  unfold Covers
  simp only
  rw [Nat.pow_succ, ← Nat.div_div_eq_div_mul]
  omega

theorem covers_unique (h : Covers (k, i) x) (h' : Covers (k, j) x) : i = j := h.symm.trans h'

/-- A block that covers a unit of a smaller block covers the smaller block. -/
theorem Covers.nested (hb : Covers b x) (hc : Covers c x) (hk : c.1 ≤ b.1) {y : ℕ}
    (hy : Covers c y) : Covers b y := by
  obtain ⟨kb, ib⟩ := b
  obtain ⟨kc, ic⟩ := c
  obtain ⟨d, rfl⟩ : ∃ d, kb = kc + d := ⟨kb - kc, by simp only at hk; omega⟩
  unfold Covers at *
  simp only [Nat.pow_add, ← Nat.div_div_eq_div_mul] at *
  rw [hy, ← hc, hb]

theorem Fits.lt (h : Fits N b) (hx : Covers b x) : x < 2 ^ N := by
  obtain ⟨k, i⟩ := b
  obtain ⟨hk, hi⟩ := h
  simp only at hk hi
  calc x < (i + 1) * 2 ^ k := (covers_iff.1 hx).2
    _ ≤ 2 ^ (N - k) * 2 ^ k := Nat.mul_le_mul_right _ hi
    _ = 2 ^ N := by rw [← Nat.pow_add, Nat.sub_add_cancel hk]

theorem Fits.half (h : Fits N (k, i)) (hk : k < N) : Fits N (k + 1, i / 2) := by
  obtain ⟨-, hi⟩ := h
  refine ⟨hk, ?_⟩
  have : 2 ^ (N - k) = 2 * 2 ^ (N - (k + 1)) := by
    rw [← Nat.pow_succ', Nat.succ_eq_add_one, show N - (k + 1) + 1 = N - k by omega]
  simp only at hi ⊢
  omega

theorem Fits.children (h : Fits N (k + 1, i)) : Fits N (k, 2 * i) ∧ Fits N (k, 2 * i + 1) := by
  obtain ⟨hk, hi⟩ := h
  simp only at hk hi
  have : 2 ^ (N - k) = 2 * 2 ^ (N - (k + 1)) := by
    rw [← Nat.pow_succ', Nat.succ_eq_add_one, show N - (k + 1) + 1 = N - k by omega]
  exact ⟨⟨by simp only; omega, by simp only; omega⟩, ⟨by simp only; omega, by simp only; omega⟩⟩

/-! ## Tilings -/

/-- The blocks of `T` tile `[0, 2 ^ N)`: they fit, cover every unit, and share none. -/
structure Tiles (N : ℕ) (T : Set Block) : Prop where
  fits : ∀ b ∈ T, Fits N b
  cover : ∀ x < 2 ^ N, ∃ b ∈ T, Covers b x
  inj : ∀ b ∈ T, ∀ c ∈ T, ∀ x, Covers b x → Covers c x → b = c

/-- Some blocks of a tiling exchanged for others with the same units. -/
theorem Tiles.replace {T S S' : Set Block} (h : Tiles N T) (hS : S ⊆ T)
    (hfits : ∀ b ∈ S', Fits N b)
    (hsame : ∀ x, (∃ b ∈ S', Covers b x) ↔ ∃ b ∈ S, Covers b x)
    (hinj : ∀ b ∈ S', ∀ c ∈ S', ∀ x, Covers b x → Covers c x → b = c) :
    Tiles N (T \ S ∪ S') := by
  -- a block of `S'` shares no unit with one that stays
  have hcross : ∀ b ∈ T \ S, ∀ c ∈ S', ∀ x, Covers b x → ¬ Covers c x := by
    intro b hb c hc x hbx hcx
    obtain ⟨d, hd, hdx⟩ := (hsame x).1 ⟨c, hc, hcx⟩
    exact hb.2 (h.inj b hb.1 d (hS hd) x hbx hdx ▸ hd)
  refine ⟨?_, fun x hx => ?_, ?_⟩
  · rintro b (hb | hb)
    · exact h.fits b hb.1
    · exact hfits b hb
  · obtain ⟨b, hb, hbx⟩ := h.cover x hx
    by_cases hbS : b ∈ S
    · obtain ⟨c, hc, hcx⟩ := (hsame x).2 ⟨b, hbS, hbx⟩
      exact ⟨c, .inr hc, hcx⟩
    · exact ⟨b, .inl ⟨hb, hbS⟩, hbx⟩
  · rintro b (hb | hb) c (hc | hc) x hbx hcx
    · exact h.inj b hb.1 c hc.1 x hbx hcx
    · exact absurd hcx (hcross b hb c hc x hbx)
    · exact absurd hbx (hcross c hc b hb x hcx)
    · exact hinj b hb c hc x hbx hcx

theorem children_inj : ∀ b ∈ ({(k, 2 * i), (k, 2 * i + 1)} : Set Block),
    ∀ c ∈ ({(k, 2 * i), (k, 2 * i + 1)} : Set Block), ∀ x, Covers b x → Covers c x → b = c := by
  rintro b (rfl | rfl) c (rfl | rfl) x hb hc
  · rfl
  · exact congrArg _ (covers_unique hb hc)
  · exact congrArg _ (covers_unique hb hc)
  · rfl

theorem Tiles.split {T : Set Block} (h : Tiles N T) (hb : (k + 1, i) ∈ T) :
    Tiles N (T \ {(k + 1, i)} ∪ {(k, 2 * i), (k, 2 * i + 1)}) := by
  have hf := (h.fits _ hb).children
  refine h.replace (by simpa using hb) ?_ (fun x => ?_) children_inj
  · rintro b (rfl | rfl)
    · exact hf.1
    · exact hf.2
  · simp [covers_succ]

theorem Tiles.merge {T : Set Block} (h : Tiles N T) (hk : k < N) (hb : (k, i) ∈ T)
    (hs : (k, sib i) ∈ T) : Tiles N (T \ {(k, i), (k, sib i)} ∪ {(k + 1, i / 2)}) := by
  refine h.replace ?_ ?_ (fun x => ?_) ?_
  · rintro b (rfl | rfl)
    · exact hb
    · exact hs
  · rintro b rfl
    exact (h.fits _ hb).half hk
  · have : Covers (k + 1, i / 2) x ↔ Covers (k, i) x ∨ Covers (k, sib i) x := by
      rw [covers_succ]
      rcases Nat.mod_two_eq_zero_or_one i with h0 | h0
      · rw [show 2 * (i / 2) = i by omega, show sib i = i + 1 by simp [sib, h0]]
      · rw [show 2 * (i / 2) + 1 = i by omega, show 2 * (i / 2) = i - 1 by omega,
          show sib i = i - 1 by simp [sib, h0], or_comm]
    simpa using this
  · rintro b rfl c rfl x - -
    rfl

/-! ## The abstract allocator -/

/-- The state of a buddy allocator: free and live blocks tile the space. -/
@[ext] structure State (N : ℕ) where
  free : Set Block
  live : Set Block
  tiles : Tiles N (free ∪ live)
  apart : Disjoint free live

namespace State

variable (H : State N)

theorem free_fits (h : b ∈ H.free) : Fits N b := H.tiles.fits b (.inl h)

theorem live_fits (h : b ∈ H.live) : Fits N b := H.tiles.fits b (.inr h)

theorem not_live (h : b ∈ H.free) : b ∉ H.live := Set.disjoint_left.1 H.apart h

theorem not_free (h : b ∈ H.live) : b ∉ H.free := fun hf => H.not_live hf h

/-- Two owned blocks with a common unit are the same. -/
theorem owned_inj (hb : b ∈ H.free ∪ H.live) (hc : c ∈ H.free ∪ H.live) (hbx : Covers b x)
    (hcx : Covers c x) : b = c := H.tiles.inj b hb c hc x hbx hcx

/-- A child of an owned block is not owned. -/
theorem child_not_owned (h : (k + 1, i) ∈ H.free ∪ H.live) :
    (k, 2 * i) ∉ H.free ∪ H.live ∧ (k, 2 * i + 1) ∉ H.free ∪ H.live := by
  constructor <;> intro hc
  · have := H.owned_inj h hc (covers_succ.2 (.inl (covers_first k (2 * i)))) (covers_first _ _)
    simp at this
  · have := H.owned_inj h hc (covers_succ.2 (.inr (covers_first k (2 * i + 1))))
      (covers_first _ _)
    simp at this

/-- The parent of an owned block is not owned. -/
theorem parent_not_owned (h : (k, i) ∈ H.free ∪ H.live) : (k + 1, i / 2) ∉ H.free ∪ H.live := by
  intro hp
  have := H.owned_inj h hp (covers_first k i) (covers_first k i).half
  simp at this

/-- Nothing is live. -/
def init (N : ℕ) : State N where
  free := {(N, 0)}
  live := ∅
  tiles := by
    refine ⟨?_, fun x hx => ⟨(N, 0), by simp, Nat.div_eq_of_lt hx⟩, ?_⟩
    · rintro b (rfl | h)
      · exact ⟨le_rfl, by simp⟩
      · exact h.elim
    · rintro b (rfl | h) c (rfl | h') x - -
      · rfl
      · exact h'.elim
      · exact h.elim
      · exact h.elim
  apart := Set.disjoint_empty _

/-- A free block becomes live. -/
def take (h : b ∈ H.free) : State N where
  free := H.free \ {b}
  live := insert b H.live
  tiles := by
    have : H.free \ {b} ∪ insert b H.live = H.free ∪ H.live := by
      ext c
      simp only [Set.mem_union, Set.mem_sdiff, Set.mem_singleton_iff, Set.mem_insert_iff]
      by_cases hc : c = b
      · subst hc; simp [h]
      · simp [hc]
    exact this ▸ H.tiles
  apart := by
    refine Set.disjoint_left.2 fun c hc hl => ?_
    rcases hl with rfl | hl
    · exact hc.2 rfl
    · exact H.not_live hc.1 hl

/-- A live block becomes free. -/
def give (h : b ∈ H.live) : State N where
  free := insert b H.free
  live := H.live \ {b}
  tiles := by
    have : insert b H.free ∪ H.live \ {b} = H.free ∪ H.live := by
      ext c
      simp only [Set.mem_union, Set.mem_sdiff, Set.mem_singleton_iff, Set.mem_insert_iff]
      by_cases hc : c = b
      · subst hc; simp [h]
      · simp [hc]
    exact this ▸ H.tiles
  apart := by
    refine Set.disjoint_left.2 fun c hc hl => ?_
    rcases hc with rfl | hc
    · exact hl.2 rfl
    · exact H.not_live hc hl.1

/-- A live block is halved; the lower half stays live, the upper half becomes free. -/
def split (h : (k + 1, i) ∈ H.live) : State N where
  free := insert (k, 2 * i + 1) H.free
  live := insert (k, 2 * i) (H.live \ {(k + 1, i)})
  tiles := by
    have hp : (k + 1, i) ∉ H.free := H.not_free h
    have : insert (k, 2 * i + 1) H.free ∪ insert (k, 2 * i) (H.live \ {(k + 1, i)}) =
        (H.free ∪ H.live) \ {(k + 1, i)} ∪ {(k, 2 * i), (k, 2 * i + 1)} := by
      ext c
      simp only [Set.mem_union, Set.mem_insert_iff, Set.mem_sdiff, Set.mem_singleton_iff]
      have : c ∈ H.free → c ≠ (k + 1, i) := fun hc he => hp (he ▸ hc)
      tauto
    exact this ▸ H.tiles.split (.inr h)
  apart := by
    have hn := H.child_not_owned (.inr h)
    refine Set.disjoint_left.2 fun c hc hl => ?_
    rcases hc with rfl | hc <;> rcases hl with hl | hl
    · simp at hl
    · exact hn.2 (.inr hl.1)
    · subst hl; exact hn.1 (.inl hc)
    · exact H.not_live hc hl.1

/-- A live block is joined with its free buddy. -/
def merge (hk : k < N) (h : (k, i) ∈ H.live) (hs : (k, sib i) ∈ H.free) : State N where
  free := H.free \ {(k, sib i)}
  live := insert (k + 1, i / 2) (H.live \ {(k, i)})
  tiles := by
    have h1 : (k, i) ∉ H.free := H.not_free h
    have h2 : (k, sib i) ∉ H.live := H.not_live hs
    have : H.free \ {(k, sib i)} ∪ insert (k + 1, i / 2) (H.live \ {(k, i)}) =
        (H.free ∪ H.live) \ {(k, i), (k, sib i)} ∪ {(k + 1, i / 2)} := by
      ext c
      simp only [Set.mem_union, Set.mem_insert_iff, Set.mem_sdiff, Set.mem_singleton_iff]
      have hc1 : c ∈ H.free → c ≠ (k, i) := fun hc he => h1 (he ▸ hc)
      have hc2 : c ∈ H.live → c ≠ (k, sib i) := fun hc he => h2 (he ▸ hc)
      tauto
    exact this ▸ H.tiles.merge hk (.inr h) (.inl hs)
  apart := by
    refine Set.disjoint_left.2 fun c hc hl => ?_
    rcases hl with rfl | hl
    · exact H.parent_not_owned (.inr h) (.inl hc.1)
    · exact H.not_live hc.1 hl.1

/-! ## Coalesced states -/

/-- No two buddies are free. -/
def Coalesced : Prop := ∀ k i, k < N → (k, i) ∈ H.free → (k, sib i) ∉ H.free

variable {H}

theorem coalesced_init : (init N).Coalesced := by
  intro k i hk h
  have : k = N := congrArg Prod.fst (show (k, i) = (N, 0) from h)
  omega

theorem Coalesced.take (h : H.Coalesced) (hb : b ∈ H.free) : (H.take hb).Coalesced :=
  fun k i hk hf hs => h k i hk hf.1 hs.1

theorem Coalesced.split (h : H.Coalesced) (hb : (k + 1, i) ∈ H.live) :
    (H.split hb).Coalesced := by
  have hn := H.child_not_owned (.inr hb)
  intro k' i' hk' hf hs
  rcases hf with hf | hf <;> rcases hs with hs | hs
  · have h1 : i' = 2 * i + 1 := congrArg Prod.snd hf
    have h2 : sib i' = 2 * i + 1 := congrArg Prod.snd hs
    exact sib_ne i' (h2.trans h1.symm)
  · simp only [Prod.mk.injEq] at hf
    obtain ⟨rfl, rfl⟩ := hf
    exact hn.1 (.inl (by simpa using hs))
  · simp only [Prod.mk.injEq] at hs
    obtain ⟨rfl, hs⟩ := hs
    have : i' = 2 * i := by rw [← sib_sib i', hs, sib_double_add_one]
    exact hn.1 (.inl (this ▸ hf))
  · exact h k' i' hk' hf hs

theorem Coalesced.merge (h : H.Coalesced) (hk : k < N) (hb : (k, i) ∈ H.live)
    (hs : (k, sib i) ∈ H.free) : (H.merge hk hb hs).Coalesced :=
  fun k' i' hk' hf hs' => h k' i' hk' hf.1 hs'.1

/-- A block given back next to a live buddy, or of the top order, keeps the state coalesced. -/
theorem Coalesced.give (h : H.Coalesced) (hb : (k, i) ∈ H.live)
    (hs : k < N → (k, sib i) ∉ H.free) : (H.give hb).Coalesced := by
  intro k' i' hk' hf hs'
  rcases hf with hf | hf <;> rcases hs' with hs' | hs'
  · exact sib_ne i' (congrArg Prod.snd (hs'.trans hf.symm))
  · simp only [Prod.mk.injEq] at hf
    obtain ⟨rfl, rfl⟩ := hf
    exact hs hk' hs'
  · simp only [Prod.mk.injEq] at hs'
    obtain ⟨rfl, rfl⟩ := hs'
    exact hs hk' (by rwa [sib_sib])
  · exact h k' i' hk' hf hs'

/-- An aligned run whose units are all in free blocks lies in one free block. -/
theorem Coalesced.complete (h : H.Coalesced) (hfit : Fits N (k, i))
    (hfree : ∀ x, Covers (k, i) x → ∃ b ∈ H.free, Covers b x) :
    ∃ b ∈ H.free, k ≤ b.1 ∧ ∀ x, Covers (k, i) x → Covers b x := by
  induction k generalizing i with
  | zero =>
    obtain ⟨b, hb, hbx⟩ := hfree _ (covers_first 0 i)
    exact ⟨b, hb, Nat.zero_le _, fun x hx => hbx.nested (covers_first 0 i) (Nat.zero_le _) hx⟩
  | succ k ih =>
    obtain ⟨hf1, hf2⟩ := hfit.children
    obtain ⟨b, hb, hkb, hbc⟩ := ih hf1 fun x hx => hfree x (covers_succ.2 (.inl hx))
    obtain ⟨c, hc, hkc, hcc⟩ := ih hf2 fun x hx => hfree x (covers_succ.2 (.inr hx))
    -- a child inside a larger free block takes the parent with it
    rcases Nat.lt_or_ge k b.1 with hlt | hge
    · exact ⟨b, hb, hlt, fun x hx => (hbc _ (covers_first k (2 * i))).nested
        (covers_succ.2 (.inl (covers_first k (2 * i)))) hlt hx⟩
    rcases Nat.lt_or_ge k c.1 with hlt | hge'
    · exact ⟨c, hc, hlt, fun x hx => (hcc _ (covers_first k (2 * i + 1))).nested
        (covers_succ.2 (.inr (covers_first k (2 * i + 1)))) hlt hx⟩
    -- otherwise both children are free blocks themselves
    have hb' : b = (k, 2 * i) := by
      obtain ⟨kb, ib⟩ := b
      obtain rfl : kb = k := by simp only at hkb hge; omega
      rw [covers_unique (hbc _ (covers_first kb (2 * i))) (covers_first kb (2 * i))]
    have hc' : c = (k, sib (2 * i)) := by
      obtain ⟨kc, ic⟩ := c
      obtain rfl : kc = k := by simp only at hkc hge'; omega
      rw [covers_unique (hcc _ (covers_first kc (2 * i + 1))) (covers_first kc (2 * i + 1)),
        sib_double]
    have := hfit.1
    exact absurd (hc' ▸ hc) (h k (2 * i) (by simp only at this; omega) (hb' ▸ hb))

/-- A free block of order at least `k` exists iff some aligned run of `2 ^ k` units meets no live
block. -/
theorem Coalesced.exists_free_iff (h : H.Coalesced) :
    (∃ b ∈ H.free, k ≤ b.1) ↔
      ∃ i, Fits N (k, i) ∧ ∀ x, Covers (k, i) x → ∀ b ∈ H.live, ¬ Covers b x := by
  constructor
  · intro hand
    obtain ⟨b, hb, hk⟩ := hand
    obtain ⟨kb, ib⟩ := b
    obtain ⟨d, rfl⟩ : ∃ d, kb = k + d := ⟨kb - k, by simp only at hk; omega⟩
    have hf := H.free_fits hb
    -- the first run of order `k` of the block
    have hc : Covers (k + d, ib) (ib * 2 ^ d * 2 ^ k) := by
      unfold Covers
      simp only
      rw [Nat.mul_assoc, ← Nat.pow_add, Nat.add_comm d k,
        Nat.mul_div_cancel _ (Nat.two_pow_pos _)]
    refine ⟨ib * 2 ^ d, ⟨?_, ?_⟩, fun x hx c hcl hcx => ?_⟩
    · have := hf.1; simp only at this ⊢; omega
    · obtain ⟨h1, h2⟩ := hf
      simp only at h1 h2 ⊢
      calc ib * 2 ^ d < 2 ^ (N - (k + d)) * 2 ^ d :=
            Nat.mul_lt_mul_of_pos_right h2 (Nat.two_pow_pos d)
        _ = 2 ^ (N - k) := by rw [← Nat.pow_add]; congr 1; omega
    · have hbx : Covers (k + d, ib) x := hc.nested (covers_first k _) hk hx
      have := H.owned_inj (.inl hb) (.inr hcl) hbx hcx
      exact H.not_live hb (this ▸ hcl)
  · intro hand
    obtain ⟨i, hf, hl⟩ := hand
    obtain ⟨b, hb, hk, -⟩ := h.complete hf fun x hx => by
      obtain ⟨b, hb | hb, hbx⟩ := H.tiles.cover x (hf.lt hx)
      · exact ⟨b, hb, hbx⟩
      · exact absurd hbx (hl x hx b hb)
    exact ⟨b, hb, hk⟩

variable {H' : State N}

/-- A free block of one coalesced state lies in a free block of any other with the same live
blocks. -/
theorem Coalesced.free_le (h' : H'.Coalesced) (hl : H'.live = H.live) (hb : b ∈ H.free) :
    ∃ c ∈ H'.free, b.1 ≤ c.1 ∧ ∀ x, Covers b x → Covers c x := by
  have hfit := H.free_fits hb
  refine h'.complete hfit fun x hx => ?_
  obtain ⟨c, hc | hc, hcx⟩ := H'.tiles.cover x (hfit.lt hx)
  · exact ⟨c, hc, hcx⟩
  · have hlive : c ∈ H.live := hl ▸ hc
    exact absurd (H.owned_inj (.inl hb) (.inr hlive) hx hcx ▸ hlive) (H.not_live hb)

theorem Coalesced.free_subset (h : H.Coalesced) (h' : H'.Coalesced) (hl : H'.live = H.live) :
    H.free ⊆ H'.free := by
  intro b hb
  obtain ⟨c, hc, hbc, hcov⟩ := h'.free_le hl hb
  obtain ⟨d, hd, hcd, hcov'⟩ := h.free_le hl.symm hc
  have hx := covers_first b.1 b.2
  -- the way there and back ends at the block it began with
  obtain rfl : b = d := H.owned_inj (.inl hb) (.inl hd) hx (hcov' _ (hcov _ hx))
  have horder : c.1 = b.1 := Nat.le_antisymm hcd hbc
  have hcx := hcov _ hx
  unfold Covers at hcx
  rw [horder, Nat.mul_div_cancel _ (Nat.two_pow_pos _)] at hcx
  rwa [Prod.ext horder.symm hcx]

/-- The live blocks determine a coalesced state. -/
theorem Coalesced.free_eq (h : H.Coalesced) (h' : H'.Coalesced) (hl : H'.live = H.live) :
    H'.free = H.free :=
  Set.Subset.antisymm (h'.free_subset h hl.symm) (h.free_subset h' hl)

end State

end Dyadic
