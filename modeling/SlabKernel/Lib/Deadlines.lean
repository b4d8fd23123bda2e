import Mathlib.Data.List.Basic

/-!
# Delta lists and deadlines

A delta list gives with each member its distance to the member before. At time `now` it stands for
a list of deadlines (`absolute`), which is sorted. `StableSort l l'` says that `l'` is `l` sorted by
deadline, equal deadlines in the order of `l`.

* `absolute_insertDelta`, `StableSort.insertAt`: inserting into the delta list is inserting the
  deadline behind the equal ones, which keeps a stable sort of the entries in the order of arrival.
* `absolute_succ`: when time goes on by one, the first distance is lowered.
* `filter_absolute_due`, `filter_absolute_later`: the entries due now are those in front at
  distance zero.
-/

namespace Deadlines

variable {α : Type*} {a : α} {now t d : Nat} {l l' : List (α × Nat)}

/-- The deadlines that the delta list stands for. -/
def absolute : Nat → List (α × Nat) → List (α × Nat)
  | _, [] => []
  | now, (a, d) :: l => (a, now + d) :: absolute (now + d) l

/-- Insertion behind the entries due at the same time. -/
def insertAt (a : α) (t : Nat) : List (α × Nat) → List (α × Nat)
  | [] => [(a, t)]
  | (b, s) :: l => if t < s then (a, t) :: (b, s) :: l else (b, s) :: insertAt a t l

/-- Insertion at the distance `d` into a delta list. -/
def insertDelta (a : α) : Nat → List (α × Nat) → List (α × Nat)
  | d, [] => [(a, d)]
  | d, (b, e) :: l => if d < e then (a, d) :: (b, e - d) :: l else (b, e) :: insertDelta a (d - e) l

/-- `l'` is `l` sorted by deadline, equal deadlines in the order of `l`. -/
structure StableSort (l l' : List (α × Nat)) : Prop where
  sorted : l'.Pairwise fun x y => x.2 ≤ y.2
  stable : ∀ t, l'.filter (fun x => x.2 = t) = l.filter (fun x => x.2 = t)

/-! ## Delta lists -/

theorem absolute_ge {x : α × Nat} (hx : x ∈ absolute now l) : now ≤ x.2 := by
  induction l generalizing now with
  | nil => cases hx
  | cons e l ih =>
    rcases List.mem_cons.1 hx with rfl | hx
    · exact Nat.le_add_right _ _
    · exact Nat.le_trans (Nat.le_add_right _ _) (ih hx)

/-- No distance is above the largest deadline. -/
theorem delta_lt {bound : Nat} (h : ∀ x ∈ absolute now l, x.2 < now + bound) :
    ∀ e ∈ l, e.2 < bound := by
  induction l generalizing now with
  | nil => exact fun e he => absurd he List.not_mem_nil
  | cons e l ih =>
    intro e' he'
    rcases List.mem_cons.1 he' with rfl | he'
    · have := h _ (.head _)
      simp only at this
      omega
    · refine ih (fun x (hx : x ∈ absolute (now + e.2) l) => ?_) e' he'
      have := h x (.tail _ hx)
      omega

theorem absolute_insertDelta :
    absolute now (insertDelta a d l) = insertAt a (now + d) (absolute now l) := by
  induction l generalizing now d with
  | nil => rfl
  | cons e l ih =>
    obtain ⟨b, e⟩ := e
    unfold insertDelta
    simp only [absolute, insertAt]
    by_cases h : d < e
    · have hs : now + d + (e - d) = now + e := by omega
      rw [if_pos h, if_pos (by omega)]
      simp only [absolute, hs]
    · have hs : now + e + (d - e) = now + d := by omega
      rw [if_neg h, if_neg (by omega)]
      simp only [absolute, ih, hs]

/-- When time goes on by one, the first distance is lowered. -/
theorem absolute_succ (hd : 1 ≤ d) :
    absolute (now + 1) ((a, d - 1) :: l) = absolute now ((a, d) :: l) := by
  have hs : now + 1 + (d - 1) = now + d := by omega
  simp only [absolute, hs]

/-- The entries due now are those in front at distance zero. -/
theorem filter_absolute_due : (absolute now l).filter (fun x => x.2 = now) =
    (l.takeWhile fun e => e.2 = 0).map fun e => (e.1, now) := by
  induction l with
  | nil => rfl
  | cons e l ih =>
    obtain ⟨b, e⟩ := e
    by_cases he : e = 0
    · subst he
      simp only [absolute, Nat.add_zero, decide_true, List.filter_cons_of_pos,
        List.takeWhile_cons_of_pos, List.map_cons, ih]
    · have hnil : (absolute now ((b, e) :: l)).filter (fun x => x.2 = now) = [] := by
        refine List.filter_eq_nil_iff.2 fun x hx => ?_
        have : now + e ≤ x.2 := by
          rcases List.mem_cons.1 hx with rfl | hx
          · exact Nat.le_refl _
          · exact absolute_ge hx
        simp only [decide_eq_true_eq]
        omega
      rw [hnil, List.takeWhile_cons_of_neg (by simpa using he), List.map_nil]

/-- The entries due later are those behind. -/
theorem filter_absolute_later : (absolute now l).filter (fun x => now < x.2) =
    absolute now (l.dropWhile fun e => e.2 = 0) := by
  induction l with
  | nil => rfl
  | cons e l ih =>
    obtain ⟨b, e⟩ := e
    by_cases he : e = 0
    · subst he
      simp only [absolute, Nat.add_zero, Nat.lt_irrefl, decide_false, Bool.false_eq_true,
        not_false_eq_true, List.filter_cons_of_neg, decide_true, List.dropWhile_cons_of_pos, ih]
    · rw [List.dropWhile_cons_of_neg (by simpa using he)]
      refine List.filter_eq_self.2 fun x hx => ?_
      have : now + e ≤ x.2 := by
        rcases List.mem_cons.1 hx with rfl | hx
        · exact Nat.le_refl _
        · exact absolute_ge hx
      simp only [decide_eq_true_eq]
      omega

/-! ## Stable sorting -/

theorem mem_insertAt {x : α × Nat} : x ∈ insertAt a t l ↔ x = (a, t) ∨ x ∈ l := by
  induction l with
  | nil => simp [insertAt]
  | cons e l ih =>
    obtain ⟨b, s⟩ := e
    simp only [insertAt]
    split
    · simp
    · simp [ih, or_left_comm]

theorem sorted_insertAt (h : l.Pairwise fun x y => x.2 ≤ y.2) :
    (insertAt a t l).Pairwise fun x y => x.2 ≤ y.2 := by
  induction l with
  | nil => simp [insertAt]
  | cons e l ih =>
    obtain ⟨he, hl⟩ := List.pairwise_cons.1 h
    simp only [insertAt]
    split
    · rename_i ht
      refine List.pairwise_cons.2 ⟨fun x hx => ?_, h⟩
      rcases List.mem_cons.1 hx with rfl | hx
      · exact Nat.le_of_lt ht
      · exact Nat.le_trans (Nat.le_of_lt ht) (he x hx)
    · rename_i ht
      refine List.pairwise_cons.2 ⟨fun x hx => ?_, ih hl⟩
      rcases mem_insertAt.1 hx with rfl | hx
      · exact Nat.le_of_not_lt ht
      · exact he x hx

/-- The new entry comes last among those of its deadline. -/
theorem filter_insertAt (h : l.Pairwise fun x y => x.2 ≤ y.2) (s : Nat) :
    (insertAt a t l).filter (fun x => x.2 = s) =
      (l ++ [(a, t)]).filter (fun x => x.2 = s) := by
  induction l with
  | nil => rfl
  | cons e l ih =>
    obtain ⟨he, hl⟩ := List.pairwise_cons.1 h
    obtain ⟨b, e⟩ := e
    simp only [insertAt]
    split
    · rename_i ht
      -- nothing in the list is due at `t`
      by_cases hs : t = s
      · have hnil : ((b, e) :: l).filter (fun x => x.2 = s) = [] := by
          refine List.filter_eq_nil_iff.2 fun x hx => ?_
          have : e ≤ x.2 := by
            rcases List.mem_cons.1 hx with rfl | hx
            · exact Nat.le_refl _
            · exact he x hx
          simp only [decide_eq_true_eq]
          omega
        rw [List.filter_append, hnil, List.nil_append,
          List.filter_cons_of_pos (by simpa using hs), hnil,
          List.filter_cons_of_pos (by simpa using hs), List.filter_nil]
      · rw [List.filter_append, List.filter_cons_of_neg (by simpa using hs),
          List.filter_cons_of_neg (a := (a, t)) (by simpa using hs), List.filter_nil,
          List.append_nil]
    · rw [List.cons_append, List.filter_cons, List.filter_cons, ih hl]

theorem StableSort.nil : StableSort (α := α) [] [] := ⟨.nil, fun _ => rfl⟩

theorem StableSort.insertAt (h : StableSort l l') :
    StableSort (l ++ [(a, t)]) (insertAt a t l') := by
  refine ⟨sorted_insertAt h.sorted, fun s => ?_⟩
  rw [filter_insertAt h.sorted, List.filter_append, List.filter_append, h.stable]

theorem StableSort.filter (h : StableSort l l') (p : α × Nat → Bool) :
    StableSort (l.filter p) (l'.filter p) := by
  refine ⟨h.sorted.filter p, fun t => ?_⟩
  rw [List.filter_comm, h.stable, List.filter_comm]

theorem StableSort.mem_iff (h : StableSort l l') (x : α × Nat) : x ∈ l' ↔ x ∈ l := by
  have hx := congrArg (x ∈ ·) (h.stable x.2)
  simpa using hx

end Deadlines
