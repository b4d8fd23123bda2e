import SlabKernel.Lib.PtrList

/-!
# Families of doubly linked lists

`Shelves next prev first L`: for each key `g`, a doubly linked list `L g` from `first g` on; all of
them share the links `next` and `prev`, and no node is on two lists. A new node is put in front of a
list (`Shelves.push`), and a node moves from a list to the front of another (`Shelves.move`).
-/

namespace PtrList

open Function (update update_self update_of_ne)

variable {α κ : Type*} {next prev next' prev' : α → Option α} {first : κ → Option α}
  {L : κ → List α} {a : α} {g g' : κ}

/-- Disjoint doubly linked lists. -/
structure Shelves (next prev : α → Option α) (first : κ → Option α) (L : κ → List α) : Prop where
  lists : ∀ g, DList next prev (first g) (L g)
  disjoint : ∀ g g', ∀ a ∈ L g, a ∈ L g' → g = g'

namespace Shelves

theorem congr (h : Shelves next prev first L) (hn : ∀ g, ∀ a ∈ L g, next' a = next a)
    (hp : ∀ g, ∀ a ∈ L g, prev' a = prev a) : Shelves next' prev' first L :=
  ⟨fun g => (h.lists g).congr (hn g) (hp g), h.disjoint⟩

theorem first_mem (h : Shelves next prev first L) (ha : first g = some a) : a ∈ L g := by
  obtain ⟨l, hl, -⟩ := Linked.cons_of_some (ha ▸ (h.lists g).linked)
  rw [hl]
  exact .head _

variable [DecidableEq α]

/-- The write at the first node of another list leaves a list alone. -/
theorem setAt_first (h : Shelves next prev first L) (hne : g ≠ g') (ha : a ∈ L g) (f : α → Option α)
    (v : Option α) : setAt f (first g') v a = f a :=
  setAt_of_ne fun he => hne (h.disjoint g g' a ha (h.first_mem he))

variable [DecidableEq κ]

/-- Put a new node in front of the list `g`. -/
theorem push (h : Shelves next prev first L) (ha : ∀ g, a ∉ L g) :
    Shelves (update next a (first g)) (setAt (update prev a none) (first g) (some a))
      (update first g (some a)) (update L g (a :: L g)) := by
  have hne : ∀ g, ∀ b ∈ L g, b ≠ a := fun g b hb he => ha g (he ▸ hb)
  refine ⟨fun g₁ => ?_, fun g₁ g₂ b hb hb' => ?_⟩
  · by_cases h1 : g₁ = g
    · subst h1
      rw [update_self, update_self]
      exact (h.lists g₁).push (ha g₁)
    · rw [update_of_ne h1, update_of_ne h1]
      refine (h.lists g₁).congr (fun b hb => update_of_ne (hne g₁ b hb) _ _) fun b hb => ?_
      rw [h.setAt_first h1 hb, update_of_ne (hne g₁ b hb)]
  · have hmem : ∀ g₁, b ∈ update L g (a :: L g) g₁ → b ∈ L g₁ ∨ b = a ∧ g₁ = g := by
      intro g₁ hm
      by_cases h1 : g₁ = g
      · subst h1
        rw [update_self] at hm
        exact (List.mem_cons.1 hm).symm.imp_right fun he => ⟨he, rfl⟩
      · rw [update_of_ne h1] at hm
        exact .inl hm
    rcases hmem g₁ hb with h1 | ⟨h1, rfl⟩
    · rcases hmem g₂ hb' with h2 | ⟨h2, rfl⟩
      · exact h.disjoint g₁ g₂ b h1 h2
      · exact absurd h2 (hne g₁ b h1)
    · rcases hmem g₂ hb' with h2 | ⟨-, rfl⟩
      · exact absurd h1 (hne g₂ b h2)
      · rfl

/-- Take a node off the list `g`. -/
theorem unlink (h : Shelves next prev first L) (ha : a ∈ L g) :
    Shelves (setAt next (prev a) (next a)) (setAt prev (next a) (prev a))
      (update first g (if prev a = none then next a else first g))
      (update L g ((L g).erase a)) := by
  refine ⟨fun g₁ => ?_, fun g₁ g₂ b hb hb' => ?_⟩
  · by_cases h1 : g₁ = g
    · subst h1
      rw [update_self, update_self]
      exact (h.lists g₁).unlink ha
    · rw [update_of_ne h1, update_of_ne h1]
      refine (h.lists g₁).congr (fun b hb => setAt_of_ne fun he => ?_) fun b hb =>
        setAt_of_ne fun he => ?_
      · exact h1 (h.disjoint g₁ g b hb ((h.lists g).prev_mem ha he))
      · exact h1 (h.disjoint g₁ g b hb ((h.lists g).next_mem ha he))
  · have hmem : ∀ g₁, b ∈ update L g ((L g).erase a) g₁ → b ∈ L g₁ := by
      intro g₁ hm
      by_cases h1 : g₁ = g
      · subst h1
        rw [update_self] at hm
        exact List.mem_of_mem_erase hm
      · rwa [update_of_ne h1] at hm
    exact h.disjoint g₁ g₂ b (hmem g₁ hb) (hmem g₂ hb')

/-- Move a node from the list `g` to the front of the list `g'`. -/
theorem move (h : Shelves next prev first L) (ha : a ∈ L g) (hne : g' ≠ g) :
    Shelves (update (setAt next (prev a) (next a)) a (first g'))
      (setAt (update (setAt prev (next a) (prev a)) a none) (first g') (some a))
      (update (update first g (if prev a = none then next a else first g)) g' (some a))
      (update (update L g ((L g).erase a)) g' (a :: L g')) := by
  have hnot : ∀ g₁, a ∉ update L g ((L g).erase a) g₁ := by
    intro g₁ hm
    by_cases h1 : g₁ = g
    · subst h1
      rw [update_self] at hm
      exact (h.lists g₁).nodup.not_mem_erase hm
    · rw [update_of_ne h1] at hm
      exact h1 (h.disjoint g₁ g a hm ha)
  have hp := (h.unlink ha).push (g := g') hnot
  rwa [update_of_ne hne, update_of_ne hne] at hp

end Shelves

end PtrList
