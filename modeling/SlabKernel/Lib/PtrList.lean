import Mathlib.Data.List.Nodup
import Mathlib.Logic.Function.Basic

/-!
# Linked lists threaded through memory

A node's links are read by functions (`next`, `prev`), a nullable pointer is an `Option`.

* `Seg next p l q`: following `next` from `p` visits the nodes `l` in order and arrives at `q`.
  `Linked next p l` is the null-terminated list; it has no repeated node (`Linked.nodup`).
* `Queue next head tail l`: a singly linked list with a tail pointer.
* `DSeg next prev b p l b' p'`: a doubly linked segment with its two boundary nodes.
  `DQueue next prev head tail l` is the list between two nulls.

Each update of the code (push, pop, append, unlink) is one lemma about `Function.update`.
-/

namespace PtrList

open Function (update)

variable {α : Type*}

/-! ## Singly linked segments -/

/-- Following `next` from `p` visits exactly the nodes of `l` and arrives at `q`. -/
def Seg (next : α → Option α) : Option α → List α → Option α → Prop
  | p, [], q => p = q
  | p, a :: l, q => p = some a ∧ Seg next (next a) l q

/-- The null-terminated list. -/
abbrev Linked (next : α → Option α) (p : Option α) (l : List α) : Prop := Seg next p l none

section
variable {next next' : α → Option α} {p q : Option α} {a b : α} {l l₁ l₂ : List α}

@[simp] theorem seg_nil : Seg next p [] q ↔ p = q := Iff.rfl

@[simp] theorem seg_cons : Seg next p (a :: l) q ↔ p = some a ∧ Seg next (next a) l q := Iff.rfl

theorem seg_append : Seg next p (l₁ ++ l₂) q ↔ ∃ r, Seg next p l₁ r ∧ Seg next r l₂ q := by
  induction l₁ generalizing p with
  | nil => simp
  | cons a l ih => simp [ih, and_assoc]

theorem Seg.congr (h : Seg next p l q) (hc : ∀ a ∈ l, next' a = next a) : Seg next' p l q := by
  induction l generalizing p with
  | nil => exact h
  | cons a l ih =>
    simp only [List.mem_cons, forall_eq_or_imp] at hc
    exact ⟨h.1, hc.1 ▸ ih h.2 hc.2⟩

theorem Linked.nil_of_none (h : Linked next none l) : l = [] := by
  cases l with
  | nil => rfl
  | cons a l => exact absurd h.1 (by simp)

theorem Linked.cons_of_some (h : Linked next (some a) l) :
    ∃ l', l = a :: l' ∧ Linked next (next a) l' := by
  cases l with
  | nil => exact absurd h (by simp)
  | cons b l =>
    obtain ⟨hb, hl⟩ := h
    obtain rfl := Option.some.inj hb
    exact ⟨l, rfl, hl⟩

theorem Linked.none_iff (h : Linked next p l) : p = none ↔ l = [] := by
  cases l with
  | nil => simpa using h
  | cons a l => simp [h.1]

theorem Linked.head? (h : Linked next p l) : p = l.head? := by
  cases l with
  | nil => exact h
  | cons a l => exact h.1

/-- A pointer has one null-terminated list. -/
theorem Linked.unique (h₁ : Linked next p l₁) (h₂ : Linked next p l₂) : l₁ = l₂ := by
  induction l₁ generalizing p l₂ with
  | nil => exact ((Linked.none_iff h₂).1 h₁).symm
  | cons a l ih =>
    obtain ⟨rfl, h₁⟩ := h₁
    obtain ⟨l', rfl, h₂'⟩ := Linked.cons_of_some h₂
    rw [ih h₁ h₂']

/-- A node of the list starts a null-terminated list of its own, so no node repeats. -/
theorem Linked.nodup (h : Linked next p l) : l.Nodup := by
  induction l generalizing p with
  | nil => exact List.nodup_nil
  | cons a l ih =>
    refine List.nodup_cons.2 ⟨fun ha => ?_, ih h.2⟩
    obtain ⟨s, t, rfl⟩ := List.append_of_mem ha
    obtain ⟨r, -, hr⟩ := seg_append.1 h.2
    -- the list after the second occurrence of `a` is the list after the first
    have := congrArg List.length (Linked.unique hr.2 h.2)
    simp at this
    omega

section
variable [DecidableEq α]

theorem Seg.update (h : Seg next p l q) (ha : a ∉ l) (v : Option α) :
    Seg (Function.update next a v) p l q :=
  h.congr fun _ hb => Function.update_of_ne (ne_of_mem_of_not_mem hb ha) _ _

/-- Push a node in front. -/
theorem Linked.push (h : Linked next p l) (ha : a ∉ l) :
    Linked (Function.update next a p) (some a) (a :: l) :=
  ⟨rfl, by rw [Function.update_self]; exact h.update ha p⟩

/-- Redirect the last node of a segment. -/
theorem Seg.redirect (h : Seg next p (l ++ [b]) q) (hb : b ∉ l) (v : Option α) :
    Seg (Function.update next b v) p (l ++ [b]) v := by
  obtain ⟨r, hl, hr⟩ := seg_append.1 h
  exact seg_append.2 ⟨r, hl.update hb v, hr.1, by simp⟩

/-- Cut the list behind `a`. -/
theorem Linked.cut (h : Linked next p (l₁ ++ a :: l₂)) :
    Linked (Function.update next a none) p (l₁ ++ [a]) := by
  have ha : a ∉ l₁ := fun hm => by
    have hnd := (List.nodup_append.1 (Linked.nodup h)).2.2
    exact hnd a hm a (.head _) rfl
  obtain ⟨r, hl, hr⟩ := seg_append.1 h
  exact Seg.redirect (seg_append.2 ⟨r, hl, hr.1, rfl⟩) ha none

/-- Unlink the node after `b`. -/
theorem Linked.unlink (h : Linked next p (l₁ ++ b :: a :: l₂)) :
    Linked (Function.update next b (next a)) p (l₁ ++ b :: l₂) := by
  have hnd := Linked.nodup h
  have hb : b ∉ l₁ ∧ b ∉ l₂ := by
    simp only [List.nodup_append, List.nodup_cons, List.mem_cons, not_or] at hnd
    exact ⟨fun hm => hnd.2.2 b hm b (.inl rfl) rfl, hnd.2.1.1.2⟩
  obtain ⟨r, hl, hr⟩ := seg_append.1 h
  refine seg_append.2 ⟨r, hl.update hb.1 _, hr.1, ?_⟩
  rw [Function.update_self]
  exact hr.2.2.update hb.2 _

end

end

/-- Nodes at consecutive indices, from `j` on. -/
theorem linked_range' {next : α → Option α} {a : ℕ → α} {n : ℕ}
    (h : ∀ i < n, next (a i) = if i < n - 1 then some (a (i + 1)) else none) (j l : ℕ)
    (hj : j + l = n) (hl : 0 < l) : Linked next (some (a j)) ((List.range' j l).map a) := by
  induction l generalizing j with
  | zero => exact absurd hl (Nat.lt_irrefl 0)
  | succ l ih =>
    rw [List.range'_succ, List.map_cons]
    refine ⟨rfl, ?_⟩
    rw [h j (by omega)]
    cases l with
    | zero =>
      rw [if_neg (by omega)]
      rfl
    | succ l =>
      rw [if_pos (by omega)]
      exact ih (j + 1) (by omega) (Nat.succ_pos l)

/-! ## Walking a list -/

/-- The nodes from `p` on, `none` when more than `fuel` nodes come before the null. -/
def walk (next : α → Option α) : ℕ → Option α → Option (List α)
  | _, none => some []
  | 0, some _ => none
  | n + 1, some a => (walk next n (next a)).map (a :: ·)

theorem walk_eq {next : α → Option α} {p : Option α} {l : List α} {n : ℕ}
    (h : Linked next p l) (hn : l.length ≤ n) : walk next n p = some l := by
  induction l generalizing p n with
  | nil => obtain rfl : p = none := h; cases n <;> rfl
  | cons a l ih =>
    obtain ⟨rfl, h⟩ := h
    cases n with
    | zero => simp at hn
    | succ n => simp [walk, ih h (by simpa using hn)]

/-! ## Queues with a tail pointer -/

/-- A null-terminated list from `head` whose last node is `tail`. -/
structure Queue (next : α → Option α) (head tail : Option α) (l : List α) : Prop where
  linked : Linked next head l
  last : tail = l.getLast?

namespace Queue

variable {next : α → Option α} {head tail : Option α} {a t : α} {l : List α}

theorem tail_none (h : Queue next head tail l) : tail = none ↔ l = [] := by
  rw [h.last, List.getLast?_eq_none_iff]

theorem nodup (h : Queue next head tail l) : l.Nodup := Linked.nodup h.linked

theorem congr {next' : α → Option α} (h : Queue next head tail l)
    (hc : ∀ a ∈ l, next' a = next a) : Queue next' head tail l :=
  ⟨Seg.congr h.linked hc, h.last⟩

/-- The last node has no successor. -/
theorem tail_next (h : Queue next head (some t) l) : next t = none := by
  obtain ⟨l₁, rfl⟩ : ∃ l₁, l = l₁ ++ [t] := List.getLast?_eq_some_iff.1 h.last.symm
  obtain ⟨p, -, h₁⟩ := seg_append.1 h.linked
  exact h₁.2

/-- Drop the first node. -/
theorem pop (h : Queue next (some a) tail (a :: l)) :
    Queue next (next a) (if next a = none then none else tail) l := by
  have hl : Linked next (next a) l := h.linked.2
  refine ⟨hl, ?_⟩
  cases l with
  | nil => simp [show next a = none from hl]
  | cons b l => rw [if_neg (by simp [hl.1]), h.last]; simp

variable [DecidableEq α]

theorem singleton (a : α) : Queue (update next a none) (some a) (some a) [a] :=
  ⟨⟨rfl, by simp⟩, rfl⟩

/-- Append a node behind the tail. -/
theorem append (h : Queue next head (some t) l) (ha : a ∉ l) :
    Queue (update (update next t (some a)) a none) head (some a) (l ++ [a]) := by
  obtain ⟨l', rfl⟩ : ∃ l', l = l' ++ [t] := List.getLast?_eq_some_iff.1 h.last.symm
  have ht : t ∉ l' := by
    have := h.nodup
    simp only [List.nodup_append, List.mem_singleton] at this
    exact fun hm => this.2.2 t hm t rfl rfl
  have h1 := Seg.redirect h.linked ht (some a)
  refine ⟨seg_append.2 ⟨some a, h1.update ha none, rfl, by simp⟩, by simp⟩

end Queue

/-! ## Doubly linked segments -/

/-- A doubly linked segment: entered at `p` from the node `b`, left at `p'` from the node `b'`. -/
def DSeg (next prev : α → Option α) :
    Option α → Option α → List α → Option α → Option α → Prop
  | b, p, [], b', p' => b = b' ∧ p = p'
  | b, p, a :: l, b', p' => p = some a ∧ prev a = b ∧ DSeg next prev (some a) (next a) l b' p'

/-- A doubly linked list with its first and last node. -/
abbrev DQueue (next prev : α → Option α) (head tail : Option α) (l : List α) : Prop :=
  DSeg next prev none head l tail none

/-- A doubly linked list known by its first node only. -/
def DList (next prev : α → Option α) (head : Option α) (l : List α) : Prop :=
  ∃ tail, DQueue next prev head tail l

section
variable {next next' prev prev' : α → Option α} {b b' p p' head tail : Option α} {a c : α}
  {l l₁ l₂ : List α}

@[simp] theorem dseg_nil : DSeg next prev b p [] b' p' ↔ b = b' ∧ p = p' := Iff.rfl

@[simp] theorem dseg_cons : DSeg next prev b p (a :: l) b' p' ↔
    p = some a ∧ prev a = b ∧ DSeg next prev (some a) (next a) l b' p' := Iff.rfl

theorem dseg_append : DSeg next prev b p (l₁ ++ l₂) b' p' ↔
    ∃ c q, DSeg next prev b p l₁ c q ∧ DSeg next prev c q l₂ b' p' := by
  induction l₁ generalizing b p with
  | nil => simp
  | cons a l ih => simp [ih, and_assoc]

theorem DSeg.seg (h : DSeg next prev b p l b' p') : Seg next p l p' := by
  induction l generalizing b p with
  | nil => exact h.2
  | cons a l ih => exact ⟨h.1, ih h.2.2⟩

theorem DSeg.last (h : DSeg next prev b p l b' p') : b' = l.getLast?.or b := by
  induction l generalizing b p with
  | nil => simpa using h.1.symm
  | cons a l ih =>
    rw [ih h.2.2, List.getLast?_cons]
    cases l.getLast? <;> rfl

/-- The first node of a segment that ends a list is in it. -/
theorem DSeg.entry_mem (h : DSeg next prev b (some a) l tail none) : a ∈ l := by
  cases l with
  | nil => cases h.2
  | cons c l =>
    obtain rfl := Option.some.inj h.1
    exact .head _

/-- The last node of a segment that starts a list is in it. -/
theorem DSeg.exit_mem {r : Option α} (h : DSeg next prev none head l (some a) r) : a ∈ l := by
  have hl := DSeg.last h
  rw [Option.or_none] at hl
  exact List.mem_of_getLast? hl.symm

/-- A segment that starts a list is left where its last node points. -/
theorem DSeg.exit_eq {r : Option α} (h : DSeg next prev none head l p r) :
    p.elim head next = r := by
  rcases List.eq_nil_or_concat l with rfl | ⟨l₀, c, rfl⟩
  · obtain ⟨rfl, rfl⟩ := h
    rfl
  · rw [List.concat_eq_append] at h
    obtain ⟨d, q, -, -, -, rfl, hr⟩ := dseg_append.1 h
    exact hr

theorem DSeg.congr (h : DSeg next prev b p l b' p') (hn : ∀ a ∈ l, next' a = next a)
    (hp : ∀ a ∈ l, prev' a = prev a) : DSeg next' prev' b p l b' p' := by
  induction l generalizing b p with
  | nil => exact h
  | cons a l ih =>
    simp only [List.mem_cons, forall_eq_or_imp] at hn hp
    obtain ⟨rfl, rfl, h⟩ := h
    exact ⟨rfl, hp.1, hn.1 ▸ ih h hn.2 hp.2⟩

theorem DQueue.nodup (h : DQueue next prev head tail l) : l.Nodup := Linked.nodup h.seg

theorem DQueue.last (h : DQueue next prev head tail l) : tail = l.getLast? := by
  simpa using DSeg.last h

theorem DQueue.queue (h : DQueue next prev head tail l) : Queue next head tail l :=
  ⟨h.seg, DQueue.last h⟩

theorem DQueue.tail_none (h : DQueue next prev head tail l) : tail = none ↔ l = [] :=
  (DQueue.queue h).tail_none

theorem DList.linked (h : DList next prev head l) : Linked next head l := h.elim fun _ h => h.seg

theorem DList.nodup (h : DList next prev head l) : l.Nodup := Linked.nodup h.linked

theorem DList.congr (h : DList next prev head l) (hn : ∀ a ∈ l, next' a = next a)
    (hp : ∀ a ∈ l, prev' a = prev a) : DList next' prev' head l :=
  h.imp fun _ h => DSeg.congr h hn hp

theorem DList.nil : DList next prev none [] := ⟨none, rfl, rfl⟩

theorem DList.unique (h₁ : DList next prev head l₁) (h₂ : DList next prev head l₂) : l₁ = l₂ :=
  Linked.unique h₁.linked h₂.linked

/-- The neighbours of a node are nodes of the list. -/
theorem DList.next_mem (h : DList next prev head l) (ha : a ∈ l) (hn : next a = some c) : c ∈ l := by
  obtain ⟨l₁, l₂, rfl⟩ := List.append_of_mem ha
  obtain ⟨r, -, -, hr⟩ := seg_append.1 h.linked
  cases l₂ with
  | nil => rw [show next a = none from hr] at hn; cases hn
  | cons d l₂ =>
    obtain rfl : d = c := Option.some.inj (hr.1.symm.trans hn)
    simp

theorem DList.prev_mem (h : DList next prev head l) (ha : a ∈ l) (hp : prev a = some c) : c ∈ l := by
  obtain ⟨tail, h⟩ := h
  obtain ⟨l₁, l₂, rfl⟩ := List.append_of_mem ha
  obtain ⟨d, q, h₁, -, rfl, -⟩ := dseg_append.1 h
  rw [hp] at h₁
  have := DSeg.last h₁
  rw [Option.or_none] at this
  exact List.mem_append_left _ (List.mem_of_getLast? this.symm)

/-- The node without a predecessor is the first one. -/
theorem DList.prev_none (h : DList next prev head l) (ha : a ∈ l) : prev a = none ↔ head = some a := by
  obtain ⟨tail, h⟩ := h
  cases l with
  | nil => exact absurd ha List.not_mem_nil
  | cons b l =>
    obtain ⟨rfl, hb, h'⟩ := h
    rcases List.mem_cons.1 ha with rfl | hm
    · simp [hb]
    · have hnd : b ∉ l := (List.nodup_cons.1 (DQueue.nodup ⟨rfl, hb, h'⟩)).1
      have hba : b ≠ a := fun he => hnd (he ▸ hm)
      obtain ⟨l₁, l₂, rfl⟩ := List.append_of_mem hm
      obtain ⟨d, q, h₁, -, hp, -⟩ := dseg_append.1 h'
      have hlast := DSeg.last h₁
      have hne : prev a ≠ none := by
        rw [hp, hlast]
        cases l₁.getLast? <;> simp
      simp [hne, hba]

variable [DecidableEq α]

theorem DSeg.update_next (h : DSeg next prev b p l b' p') (ha : a ∉ l) (v : Option α) :
    DSeg (update next a v) prev b p l b' p' :=
  h.congr (fun _ hb => Function.update_of_ne (ne_of_mem_of_not_mem hb ha) _ _) fun _ _ => rfl

theorem DSeg.update_prev (h : DSeg next prev b p l b' p') (ha : a ∉ l) (v : Option α) :
    DSeg next (update prev a v) b p l b' p' :=
  h.congr (fun _ _ => rfl) fun _ hb => Function.update_of_ne (ne_of_mem_of_not_mem hb ha) _ _

/-- Redirect the exit of a segment that ends in `c`. -/
theorem DSeg.redirect (h : DSeg next prev b p (l ++ [c]) b' p') (hc : c ∉ l) (v : Option α) :
    DSeg (update next c v) prev b p (l ++ [c]) (some c) v := by
  obtain ⟨d, q, hl, rfl, hp, -⟩ := dseg_append.1 h
  exact dseg_append.2 ⟨d, some c, hl.update_next hc v, rfl, hp, rfl, by simp⟩

/-- Change the node from which a segment that starts with `c` is entered. -/
theorem DSeg.reenter (h : DSeg next prev b p (c :: l) b' p') (hc : c ∉ l) (v : Option α) :
    DSeg next (update prev c v) v p (c :: l) b' p' :=
  ⟨h.1, by simp, h.2.2.update_prev hc v⟩

/-- Append a node behind the tail. -/
theorem DQueue.append {t : α} (h : DQueue next prev head (some t) l) (ha : a ∉ l) :
    DQueue (update (update next t (some a)) a none) (update prev a (some t)) head (some a)
      (l ++ [a]) := by
  obtain ⟨l', rfl⟩ : ∃ l', l = l' ++ [t] := List.getLast?_eq_some_iff.1 (DQueue.last h).symm
  have ht : t ∉ l' := by
    have := DQueue.nodup h
    simp only [List.nodup_append, List.mem_singleton] at this
    exact fun hm => this.2.2 t hm t rfl rfl
  have h1 := DSeg.redirect h ht (some a)
  exact dseg_append.2 ⟨some t, some a, (h1.update_next ha none).update_prev ha _, rfl, by simp, rfl,
    by simp⟩

/-! ## Taking nodes off doubly linked lists -/

/-- The write `*p = v` unless `p` is null. -/
def setAt (f : α → Option α) (p v : Option α) : α → Option α :=
  match p with
  | none => f
  | some a => update f a v

theorem setAt_of_ne {f : α → Option α} {v : Option α} (h : p ≠ some a) : setAt f p v a = f a := by
  cases p with
  | none => rfl
  | some b => exact Function.update_of_ne (fun he : a = b => h (he ▸ rfl)) _ _

/-! ## Joining segments -/

/-- Redirect the exit of a segment that starts a list; `p` is its last node. -/
theorem DSeg.setExit {r : Option α} (h : DSeg next prev none head l p r) (hnd : l.Nodup)
    (v : Option α) : DSeg (setAt next p v) prev none (if p = none then v else head) l p v := by
  rcases List.eq_nil_or_concat l with rfl | ⟨l₀, c, rfl⟩
  · obtain ⟨rfl, -⟩ := h
    exact ⟨rfl, rfl⟩
  · rw [List.concat_eq_append] at *
    obtain rfl : p = some c := by simpa using DSeg.last h
    have hc : c ∉ l₀ := fun hm => (List.nodup_append.1 hnd).2.2 c hm c (.head _) rfl
    rw [if_neg (Option.some_ne_none c)]
    exact h.redirect hc v

/-- Change the node from which a segment that ends a list is entered; `p` is its first node. -/
theorem DSeg.setEntry (h : DSeg next prev b p l tail none) (hnd : l.Nodup) (v : Option α) :
    DSeg next (setAt prev p v) v p l (if p = none then v else tail) none := by
  cases l with
  | nil =>
    obtain ⟨-, rfl⟩ := h
    exact ⟨rfl, rfl⟩
  | cons c l =>
    obtain rfl := h.1
    rw [if_neg (Option.some_ne_none c)]
    exact h.reenter (List.nodup_cons.1 hnd).1 v

/-- Join two segments of a list; what lay between them is dropped. -/
theorem DQueue.link {r q : Option α} (h₁ : DSeg next prev none head l₁ p r)
    (h₂ : DSeg next prev b q l₂ tail none) (hnd : (l₁ ++ l₂).Nodup)
    (hn : ∀ x ∈ l₁ ++ l₂, next' x = setAt next p q x)
    (hp : ∀ x ∈ l₁ ++ l₂, prev' x = setAt prev q p x) :
    DQueue next' prev' (if p = none then q else head) (if q = none then p else tail)
      (l₁ ++ l₂) := by
  obtain ⟨hnd₁, hnd₂, hd⟩ := List.nodup_append.1 hnd
  refine dseg_append.2 ⟨p, q, (h₁.setExit hnd₁ q).congr (fun x hx => ?_) fun x hx => ?_,
    (h₂.setEntry hnd₂ p).congr (fun x hx => ?_) fun x hx => ?_⟩
  · exact hn x (List.mem_append_left _ hx)
  · rw [hp x (List.mem_append_left _ hx)]
    exact setAt_of_ne fun he => hd x hx x (DSeg.entry_mem (he ▸ h₂)) rfl
  · rw [hn x (List.mem_append_right _ hx)]
    exact setAt_of_ne fun he => hd x (DSeg.exit_mem (he ▸ h₁)) x hx rfl
  · exact hp x (List.mem_append_right _ hx)

/-- Join two segments of a list by a new node; what lay between them is dropped. -/
theorem DList.insert {r q : Option α} (h₁ : DSeg next prev none head l₁ p r)
    (h₂ : DSeg next prev b q l₂ tail none) (hnd : (l₁ ++ l₂).Nodup) (hna : next' a = q)
    (hpa : prev' a = p) (hn : ∀ x ∈ l₁ ++ l₂, next' x = setAt next p (some a) x)
    (hp : ∀ x ∈ l₁ ++ l₂, prev' x = setAt prev q (some a) x) :
    DList next' prev' (if p = none then some a else head) (l₁ ++ a :: l₂) := by
  obtain ⟨hnd₁, hnd₂, hd⟩ := List.nodup_append.1 hnd
  refine ⟨_, dseg_append.2 ⟨p, some a, (h₁.setExit hnd₁ (some a)).congr (fun x hx => ?_)
    fun x hx => ?_, rfl, hpa, hna ▸ (h₂.setEntry hnd₂ (some a)).congr (fun x hx => ?_)
    fun x hx => ?_⟩⟩
  · exact hn x (List.mem_append_left _ hx)
  · rw [hp x (List.mem_append_left _ hx)]
    exact setAt_of_ne fun he => hd x hx x (DSeg.entry_mem (he ▸ h₂)) rfl
  · rw [hn x (List.mem_append_right _ hx)]
    exact setAt_of_ne fun he => hd x (DSeg.exit_mem (he ▸ h₁)) x hx rfl
  · exact hp x (List.mem_append_right _ hx)

/-- Take a node off its list. -/
theorem DQueue.unlink (h : DQueue next prev head tail l) (ha : a ∈ l) :
    DQueue (setAt next (prev a) (next a)) (setAt prev (next a) (prev a))
      (if prev a = none then next a else head) (if next a = none then prev a else tail)
      (l.erase a) := by
  have hnd := (DQueue.nodup h).erase a
  obtain ⟨l₁, l₂, rfl⟩ := List.append_of_mem ha
  have ha₁ : a ∉ l₁ := fun hm =>
    (List.nodup_append.1 (DQueue.nodup h)).2.2 a hm a (.head _) rfl
  rw [List.erase_append_right _ ha₁, List.erase_cons_head] at hnd ⊢
  obtain ⟨d, q, h₁, -, rfl, h₂⟩ := dseg_append.1 h
  exact DQueue.link h₁ h₂ hnd (fun _ _ => rfl) fun _ _ => rfl

theorem DList.unlink (h : DList next prev head l) (ha : a ∈ l) :
    DList (setAt next (prev a) (next a)) (setAt prev (next a) (prev a))
      (if prev a = none then next a else head) (l.erase a) :=
  h.elim fun _ h => ⟨_, DQueue.unlink h ha⟩

/-- Push a node in front. -/
theorem DList.push (h : DList next prev head l) (ha : a ∉ l) :
    DList (update next a head) (setAt (update prev a none) head (some a)) (some a) (a :: l) := by
  obtain ⟨tail, h⟩ := h
  cases l with
  | nil =>
    obtain rfl : head = none := h.2
    exact ⟨some a, rfl, by simp [setAt], rfl, by simp⟩
  | cons b l =>
    obtain ⟨rfl, hb, h'⟩ := h
    have hab : a ≠ b := fun he => ha (he ▸ .head _)
    have hnd : b ∉ l := (List.nodup_cons.1 (DQueue.nodup ⟨rfl, hb, h'⟩)).1
    have h₁ : DSeg next prev none (some b) (b :: l) tail none := ⟨rfl, hb, h'⟩
    refine ⟨tail, rfl, by simp [setAt, hab], ?_⟩
    rw [Function.update_self]
    exact ((h₁.update_next ha (some b)).update_prev ha none).reenter hnd (some a)

end

end PtrList
