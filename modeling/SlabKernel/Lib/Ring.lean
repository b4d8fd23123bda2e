import Mathlib.Logic.Function.Basic

/-!
# Ring buffers

`Ring n buff head tail l`: the slots of `buff` from `head` on, `n` of them in a circle, hold the
elements of `l`, and `tail` is the slot behind the last one. Writing to the free slot at `tail` and
moving `tail` are separate operations (`write`, `grow`), as are reading the first element and moving
`head` (`front`, `pop`). The ring holds at most `n` elements; a full ring and an empty one have equal
indices (`head_eq_tail_iff`).
-/

namespace Rings

open Function (update update_of_ne)

variable {α : Type*} {n head tail : Nat} {buff : Nat → α} {l : List α} {c : α}

/-- The ring holds `l`. -/
structure Ring (n : Nat) (buff : Nat → α) (head tail : Nat) (l : List α) : Prop where
  length_le : l.length ≤ n
  head_lt : head < n
  tail_eq : tail = (head + l.length) % n
  slot : ∀ i c, l[i]? = some c → buff ((head + i) % n) = c

theorem slot_eq (hh : head < n) {i : Nat} (hi : i < n) :
    (head + i) % n = if head + i < n then head + i else head + i - n := by
  split
  · exact Nat.mod_eq_of_lt ‹_›
  · rw [Nat.mod_eq_sub_mod (by omega), Nat.mod_eq_of_lt (by omega)]

/-- The slots of a circle are different. -/
theorem slot_inj (hh : head < n) {i j : Nat} (hi : i < n) (hj : j < n)
    (he : (head + i) % n = (head + j) % n) : i = j := by
  rw [slot_eq hh hi, slot_eq hh hj] at he
  split at he <;> split at he <;> omega

namespace Ring

theorem empty (buff : Nat → α) (h : head < n) : Ring n buff head head [] where
  length_le := Nat.zero_le n
  head_lt := h
  tail_eq := (Nat.mod_eq_of_lt h).symm
  slot _ _ hc := nomatch hc

/-- The slot at `tail` is free. -/
theorem slot_ne_tail (h : Ring n buff head tail l) (hl : l.length < n) {i : Nat}
    (hi : i < l.length) : (head + i) % n ≠ tail := by
  rw [h.tail_eq]
  intro he
  have := slot_inj h.head_lt (Nat.lt_trans hi hl) hl he
  omega

/-- Writing to the free slot changes no element. -/
theorem write (h : Ring n buff head tail l) (hl : l.length < n) (c : α) :
    Ring n (update buff tail c) head tail l := by
  refine ⟨h.length_le, h.head_lt, h.tail_eq, fun i d hd => ?_⟩
  obtain ⟨hi, -⟩ := List.getElem?_eq_some_iff.1 hd
  rw [update_of_ne (h.slot_ne_tail hl hi)]
  exact h.slot i d hd

/-- The element in the slot at `tail` joins the ring. -/
theorem grow (h : Ring n buff head tail l) (hl : l.length < n) (hc : buff tail = c) :
    Ring n buff head ((tail + 1) % n) (l ++ [c]) := by
  refine ⟨?_, h.head_lt, ?_, fun i d hd => ?_⟩
  · rw [List.length_append]
    exact hl
  · rw [h.tail_eq, List.length_append, List.length_singleton, Nat.mod_add_mod, Nat.add_assoc]
  · rw [List.getElem?_append] at hd
    split at hd
    · exact h.slot i d hd
    · rename_i hi
      obtain ⟨h0, hd⟩ := List.getElem?_eq_some_iff.1 hd
      rw [List.length_singleton] at h0
      have hil : i = l.length := by omega
      subst hil
      rw [← h.tail_eq, hc, ← hd]
      simp

theorem push (h : Ring n buff head tail l) (hl : l.length < n) (c : α) :
    Ring n (update buff tail c) head ((tail + 1) % n) (l ++ [c]) :=
  (h.write hl c).grow hl (Function.update_self tail c buff)

/-- The slot at `head` holds the first element. -/
theorem front (h : Ring n buff head tail (c :: l)) : buff head = c := by
  have h0 := h.slot 0 c rfl
  rwa [Nat.add_zero, Nat.mod_eq_of_lt h.head_lt] at h0

theorem pop (h : Ring n buff head tail (c :: l)) : Ring n buff ((head + 1) % n) tail l := by
  have hlen := h.length_le
  rw [List.length_cons] at hlen
  refine ⟨by omega, Nat.mod_lt _ (Nat.zero_lt_of_lt h.head_lt), ?_, fun i d hd => ?_⟩
  · rw [h.tail_eq, Nat.mod_add_mod, List.length_cons]
    congr 1
    omega
  · rw [Nat.mod_add_mod, Nat.add_assoc, Nat.add_comm 1 i]
    exact h.slot (i + 1) d (by rw [List.getElem?_cons_succ, hd])

/-- A full ring and an empty one have equal indices. -/
theorem head_eq_tail_iff (h : Ring n buff head tail l) :
    head = tail ↔ l = [] ∨ l.length = n := by
  have hlen := h.length_le
  have hh := h.head_lt
  rw [h.tail_eq, ← List.length_eq_zero_iff]
  constructor
  · intro he
    by_cases hn : l.length = n
    · exact .inr hn
    · refine .inl (slot_inj hh (by omega) (by omega) ?_)
      rw [← he, Nat.add_zero, Nat.mod_eq_of_lt hh]
  · intro hor
    cases hor with
    | inl h0 => rw [h0, Nat.add_zero, Nat.mod_eq_of_lt hh]
    | inr hn => rw [hn, Nat.add_mod_right, Nat.mod_eq_of_lt hh]

end Ring

end Rings
