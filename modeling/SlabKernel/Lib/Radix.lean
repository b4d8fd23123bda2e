import Mathlib.Data.List.Nodup
import Mathlib.Logic.Function.Basic

/-!
# Radix trees of tables

A tree of tables with `F` words each. `addr k p` is the address of the table of depth `k` for the
prefix `p`; its child `j` is the table of depth `k + 1` for the prefix `p * F + j`. A word of a table
above depth `D` is 0, or points to the child (`ptr`); the words of the tables of depth `D` are the
leaves, `leaf word addr D F q` being the one with index `q`.

A tree changes by three moves: a new child whose words are all 0 (`Tree.grow`), a write to a leaf
(`Tree.write`), and the removal of a child whose words are all 0 (`Tree.prune`). The first and the
last one change no leaf. `Owned` lists the tables, and `Busy` says that no table but the root and an
exempt one is empty.
-/

namespace Radix

variable {ι κ γ : Type*} [DecidableEq ι] [DecidableEq κ]

/-- `f` with the value `v` at `i`, `j`. -/
def place (f : ι → κ → γ) (i : ι) (j : κ) (v : γ) : ι → κ → γ :=
  fun i' j' => if i' = i ∧ j' = j then v else f i' j'

theorem place_self (f : ι → κ → γ) (i : ι) (j : κ) (v : γ) : place f i j v i j = v :=
  if_pos ⟨rfl, rfl⟩

theorem place_of_ne {f : ι → κ → γ} {i i' : ι} {j j' : κ} {v : γ} (h : ¬ (i' = i ∧ j' = j)) :
    place f i j v i' j' = f i' j' :=
  if_neg h

variable {α β : Type*} [Zero β]

/-- The tables at `addr` with the words `word` form a tree. -/
structure Tree (F D : Nat) (ptr : α → β) (word : α → Nat → β) (addr : Nat → Nat → Option α) :
    Prop where
  root : ∀ {p}, addr 0 p ≠ none → p = 0
  depth : ∀ {k p}, addr k p ≠ none → k ≤ D
  parent : ∀ {k p}, addr (k + 1) p ≠ none → addr k (p / F) ≠ none
  inj : ∀ {k p k' p' a}, addr k p = some a → addr k' p' = some a → k = k' ∧ p = p'
  inner : ∀ {k p a}, addr k p = some a → k < D → ∀ j < F,
    word a j = (addr (k + 1) (p * F + j)).elim 0 ptr

/-- The leaf with index `q`. -/
def leaf (word : α → Nat → β) (addr : Nat → Nat → Option α) (D F q : Nat) : β :=
  (addr D (q / F)).elim 0 fun a => word a (q % F)

/-- The tables of the tree. -/
structure Owned (addr : Nat → Nat → Option α) (tables : List α) : Prop where
  nodup : tables.Nodup
  mem : ∀ a, a ∈ tables ↔ ∃ k p, addr k p = some a

/-- Every table below the root has a word that is not 0, but maybe `exempt`. -/
def Busy (F : Nat) (word : α → Nat → β) (addr : Nat → Nat → Option α) (exempt : Option α) : Prop :=
  ∀ k p b, addr (k + 1) p = some b → exempt ≠ some b → ∃ j < F, word b j ≠ 0

variable {F D k p j q : Nat} {ptr : α → β} {word word' : α → Nat → β}
  {addr : Nat → Nat → Option α} {a b c : α} {v : β} {tables : List α} {e : Option α}

theorem div_add (hj : j < F) : (p * F + j) / F = p := by
  rw [Nat.mul_comm, Nat.mul_add_div (Nat.zero_lt_of_lt hj), Nat.div_eq_of_lt hj, Nat.add_zero]

theorem mod_add (hj : j < F) : (p * F + j) % F = j := by
  rw [Nat.mul_comm, Nat.mul_add_mod, Nat.mod_eq_of_lt hj]

/-- A prefix is a child of one prefix. -/
theorem child_inj {p' j' : Nat} (hj : j < F) (hj' : j' < F) (h : p * F + j = p' * F + j') :
    p = p' ∧ j = j' := by
  have h1 := congrArg (· / F) h
  have h2 := congrArg (· % F) h
  simp only [div_add hj, div_add hj', mod_add hj, mod_add hj'] at h1 h2
  exact ⟨h1, h2⟩

/-! ## Trees -/

theorem leaf_congr (hF : 0 < F)
    (hw : ∀ {k p a}, addr k p = some a → ∀ j < F, word' a j = word a j) (q : Nat) :
    leaf word' addr D F q = leaf word addr D F q := by
  unfold leaf
  cases ha : addr D (q / F) with
  | none => rfl
  | some a => exact hw ha _ (Nat.mod_lt q hF)

/-- The tree with only a root. -/
theorem Tree.single (D : Nat) (hz : ∀ j < F, word a j = 0) :
    Tree F D ptr word (place (fun _ _ => none) 0 0 (some a)) := by
  have hcases : ∀ {k p b}, place (fun _ _ => none) 0 0 (some a) k p = some b →
      (k = 0 ∧ p = 0) ∧ b = a := by
    intro k p b h
    unfold place at h
    split at h
    · exact ⟨‹_›, (Option.some.inj h).symm⟩
    · cases h
  have hne : ∀ {k p}, place (fun _ _ => none) 0 0 (some a) k p ≠ none → k = 0 ∧ p = 0 := by
    intro k p h
    obtain ⟨b, hb⟩ := Option.ne_none_iff_exists'.1 h
    exact (hcases hb).1
  refine ⟨fun h => (hne h).2, fun h => ?_, fun h => ?_, fun h h' => ?_, fun h _ j hj => ?_⟩
  · rw [(hne h).1]
    exact Nat.zero_le D
  · exact absurd (hne h).1 (Nat.succ_ne_zero _)
  · obtain ⟨⟨h1, h2⟩, -⟩ := hcases h
    obtain ⟨⟨h1', h2'⟩, -⟩ := hcases h'
    exact ⟨h1.trans h1'.symm, h2.trans h2'.symm⟩
  · obtain ⟨⟨rfl, rfl⟩, rfl⟩ := hcases h
    rw [hz j hj, place_of_ne fun hc => absurd hc.1 (Nat.succ_ne_zero _)]
    rfl

namespace Tree

/-- Only the words of the tables matter. -/
theorem congr (h : Tree F D ptr word addr)
    (hw : ∀ {k p a}, addr k p = some a → ∀ j < F, word' a j = word a j) :
    Tree F D ptr word' addr :=
  { h with inner := fun ha hk j hj => (hw ha j hj).trans (h.inner ha hk j hj) }

/-- A table without a parent in the tree is the root. -/
theorem child_none (h : Tree F D ptr word addr) (hj : j < F) (hp : addr k p = none) :
    addr (k + 1) (p * F + j) = none := by
  by_contra hc
  have := h.parent hc
  rw [div_add hj] at this
  exact this hp

/-- A table whose words are 0 has no children. -/
theorem barren (h : Tree F D ptr word addr) (hptr : ∀ a, ptr a ≠ 0) (hF : 0 < F)
    (hc : addr k p = some c) (hz : ∀ i < F, word c i = 0) (hq : q / F = p) :
    addr (k + 1) q = none := by
  by_contra hn
  obtain ⟨b, hb⟩ := Option.ne_none_iff_exists'.1 hn
  have hk : k < D := h.depth hn
  have hi := Nat.mod_lt q hF
  have := h.inner hc hk _ hi
  rw [← hq, Nat.div_add_mod', hb, hz _ hi] at this
  exact hptr b this.symm

end Tree

theorem Owned.single (a : α) : Owned (place (fun _ _ => none) 0 0 (some a)) [a] := by
  refine ⟨List.nodup_singleton a, fun b => ?_⟩
  rw [List.mem_singleton]
  constructor
  · intro he
    subst he
    exact ⟨0, 0, place_self _ _ _ _⟩
  · intro h
    obtain ⟨k, p, h⟩ := h
    unfold place at h
    split at h
    · exact (Option.some.inj h).symm
    · cases h

theorem Owned.grow (h : Owned addr tables) (hnone : addr k p = none)
    (hb : ∀ k p, addr k p ≠ some b) : Owned (place addr k p (some b)) (b :: tables) := by
  refine ⟨List.nodup_cons.2 ⟨fun hm => ?_, h.nodup⟩, fun x => ?_⟩
  · obtain ⟨k', p', hkp⟩ := (h.mem b).1 hm
    exact hb k' p' hkp
  · rw [List.mem_cons, h.mem]
    constructor
    · intro hx
      rcases hx with rfl | ⟨k', p', hkp⟩
      · exact ⟨k, p, place_self _ _ _ _⟩
      · refine ⟨k', p', ?_⟩
        rw [place_of_ne fun hc => ?_, hkp]
        rw [hc.1, hc.2, hnone] at hkp
        cases hkp
    · intro hx
      obtain ⟨k', p', hkp⟩ := hx
      unfold place at hkp
      split at hkp
      · exact .inl (Option.some.inj hkp).symm
      · exact .inr ⟨k', p', hkp⟩

theorem Busy.single (a : α) : Busy F word (place (fun _ _ => none) 0 0 (some a)) none := by
  intro k p b h
  rw [place_of_ne fun hc => absurd hc.1 (Nat.succ_ne_zero k)] at h
  cases h

/-- The root may be without words. -/
theorem Busy.root (h : Busy F word addr (some a)) (ht : Tree F D ptr word addr)
    (ha : addr 0 p = some a) : Busy F word addr none := by
  intro k q b hb _
  refine h k q b hb fun he => ?_
  obtain rfl := Option.some.inj he
  exact absurd (ht.inj hb ha).1 (Nat.succ_ne_zero k)

theorem Busy.congr (h : Busy F word addr e)
    (hw : ∀ {k p a}, addr k p = some a → ∀ j < F, word' a j = word a j) :
    Busy F word' addr e := by
  intro k p b hb hne
  obtain ⟨i, hi, hv⟩ := h k p b hb hne
  exact ⟨i, hi, by rwa [hw hb i hi]⟩

/-! ## The moves -/

variable [DecidableEq α]

namespace Tree

/-- A new child without words. -/
theorem grow (h : Tree F D ptr word addr) (ha : addr k p = some a) (hk : k < D) (hj : j < F)
    (hnone : addr (k + 1) (p * F + j) = none) (hb : ∀ k p, addr k p ≠ some b)
    (hz : ∀ i < F, word b i = 0) :
    Tree F D ptr (place word a j (ptr b)) (place addr (k + 1) (p * F + j) (some b)) := by
  have hab : a ≠ b := fun he => hb k p (he ▸ ha)
  have hold : ∀ {k' p' c}, place addr (k + 1) (p * F + j) (some b) k' p' = some c →
      (k' = k + 1 ∧ p' = p * F + j) ∧ c = b ∨ addr k' p' = some c := by
    intro k' p' c hc
    unfold place at hc
    split at hc
    · exact .inl ⟨‹_›, (Option.some.inj hc).symm⟩
    · exact .inr hc
  have hne : ∀ {k' p'}, place addr (k + 1) (p * F + j) (some b) k' p' ≠ none →
      (k' = k + 1 ∧ p' = p * F + j) ∨ addr k' p' ≠ none := by
    intro k' p' hc
    obtain ⟨c, hc⟩ := Option.ne_none_iff_exists'.1 hc
    rcases hold hc with ⟨hkp, -⟩ | hc
    · exact .inl hkp
    · exact .inr (by rw [hc]; exact Option.some_ne_none c)
  have hkeep : ∀ {k' p'}, addr k' p' ≠ none →
      place addr (k + 1) (p * F + j) (some b) k' p' ≠ none := by
    intro k' p' hc
    unfold place
    split
    · exact Option.some_ne_none b
    · exact hc
  refine ⟨fun hp => ?_, fun hp => ?_, fun hp => ?_, fun hc hc' => ?_, fun hc hk' i hi => ?_⟩
  · rcases hne hp with ⟨hk', -⟩ | hp
    · exact absurd hk' (Nat.succ_ne_zero k).symm
    · exact h.root hp
  · rcases hne hp with ⟨rfl, -⟩ | hp
    · exact hk
    · exact h.depth hp
  · rcases hne hp with ⟨hk', rfl⟩ | hp
    · obtain rfl := Nat.succ.inj hk'
      rw [div_add hj]
      exact hkeep (by rw [ha]; exact Option.some_ne_none a)
    · exact hkeep (h.parent hp)
  · rcases hold hc with ⟨⟨rfl, rfl⟩, rfl⟩ | h₁
    · rcases hold hc' with ⟨⟨rfl, rfl⟩, -⟩ | h₂
      · exact ⟨rfl, rfl⟩
      · exact absurd h₂ (hb _ _)
    · rcases hold hc' with ⟨-, rfl⟩ | h₂
      · exact absurd h₁ (hb _ _)
      · exact h.inj h₁ h₂
  · rename_i k' p' c
    rcases hold hc with ⟨⟨rfl, rfl⟩, rfl⟩ | h₁
    · -- the new table has no children
      have hn : addr (k + 1 + 1) ((p * F + j) * F + i) = none := h.child_none hi hnone
      rw [place_of_ne fun hci => hab hci.1.symm, hz i hi,
        place_of_ne fun hci => absurd hci.1 (Nat.succ_ne_self _), hn]
      rfl
    · by_cases hci : c = a ∧ i = j
      · obtain ⟨rfl, rfl⟩ := hci
        obtain ⟨rfl, rfl⟩ := h.inj h₁ ha
        rw [place_self, place_self]
        rfl
      · rw [place_of_ne hci, h.inner h₁ hk' i hi, place_of_ne fun hkp => hci ?_]
        obtain ⟨hk'', hpp⟩ := hkp
        obtain rfl := Nat.succ.inj hk''
        obtain ⟨rfl, rfl⟩ := child_inj hi hj hpp
        rw [ha, Option.some.injEq] at h₁
        exact ⟨h₁.symm, rfl⟩

theorem grow_leaf (h : Tree F D ptr word addr) (ha : addr k p = some a) (hk : k < D) (hj : j < F)
    (hnone : addr (k + 1) (p * F + j) = none) (hb : ∀ k p, addr k p ≠ some b)
    (hz : ∀ i < F, word b i = 0) (q : Nat) :
    leaf (place word a j (ptr b)) (place addr (k + 1) (p * F + j) (some b)) D F q =
      leaf word addr D F q := by
  have hab : a ≠ b := fun he => hb k p (he ▸ ha)
  have hF : 0 < F := Nat.zero_lt_of_lt hj
  unfold leaf
  by_cases hkp : D = k + 1 ∧ q / F = p * F + j
  · obtain ⟨hD, hq⟩ := hkp
    rw [hD, hq, place_self, hnone]
    simp only [Option.elim_some, Option.elim_none]
    rw [place_of_ne fun hc => hab hc.1.symm, hz _ (Nat.mod_lt q hF)]
  · rw [place_of_ne hkp]
    cases hc : addr D (q / F) with
    | none => rfl
    | some c =>
      refine place_of_ne fun hca => ?_
      obtain rfl := hca.1
      exact absurd (h.inj hc ha).1 (Nat.ne_of_gt hk)

/-- A write to a leaf. -/
theorem write (h : Tree F D ptr word addr) (ha : addr D p = some a) (v : β) :
    Tree F D ptr (place word a j v) addr := by
  refine { h with inner := fun hc hk i hi => ?_ }
  rw [place_of_ne fun hca => ?_, h.inner hc hk i hi]
  obtain rfl := hca.1
  exact absurd (h.inj hc ha).1 (Nat.ne_of_lt hk)

theorem write_leaf (h : Tree F D ptr word addr) (ha : addr D p = some a) (hj : j < F) (v : β)
    (q : Nat) : leaf (place word a j v) addr D F q =
      if q = p * F + j then v else leaf word addr D F q := by
  unfold leaf
  split
  · rename_i hq
    rw [hq, div_add hj, mod_add hj, ha]
    exact place_self _ _ _ _
  · rename_i hq
    cases hc : addr D (q / F) with
    | none => rfl
    | some c =>
      refine place_of_ne fun hca => hq ?_
      obtain ⟨rfl, hqj⟩ := hca
      obtain ⟨-, hqp⟩ := h.inj hc ha
      rw [← hqj, ← hqp]
      exact (Nat.div_add_mod' q F).symm

/-- A child without words goes. -/
theorem prune (h : Tree F D ptr word addr) (hptr : ∀ a, ptr a ≠ 0) (ha : addr k p = some a)
    (hj : j < F) (hc : addr (k + 1) (p * F + j) = some c) (hz : ∀ i < F, word c i = 0) :
    Tree F D ptr (place word a j 0) (place addr (k + 1) (p * F + j) none) := by
  have hF : 0 < F := Nat.zero_lt_of_lt hj
  have hold : ∀ {k' p' b}, place addr (k + 1) (p * F + j) none k' p' = some b →
      ¬ (k' = k + 1 ∧ p' = p * F + j) ∧ addr k' p' = some b := by
    intro k' p' b hb
    unfold place at hb
    split at hb
    · cases hb
    · exact ⟨‹_›, hb⟩
  have hne : ∀ {k' p'}, place addr (k + 1) (p * F + j) none k' p' ≠ none →
      ¬ (k' = k + 1 ∧ p' = p * F + j) ∧ addr k' p' ≠ none := by
    intro k' p' hb
    obtain ⟨b, hb⟩ := Option.ne_none_iff_exists'.1 hb
    obtain ⟨hkp, hb⟩ := hold hb
    exact ⟨hkp, by rw [hb]; exact Option.some_ne_none b⟩
  refine ⟨fun hp => h.root (hne hp).2, fun hp => h.depth (hne hp).2, fun hp => ?_,
    fun hb hb' => h.inj (hold hb).2 (hold hb').2, fun hb hk' i hi => ?_⟩
  · obtain ⟨hkp, h₁⟩ := hne hp
    rw [place_of_ne fun hq => ?_]
    · exact h.parent h₁
    · obtain ⟨rfl, hq⟩ := hq
      exact h₁ (h.barren hptr hF hc hz hq)
  · rename_i k' p' b
    obtain ⟨hkp, h₁⟩ := hold hb
    by_cases hba : b = a ∧ i = j
    · obtain ⟨rfl, rfl⟩ := hba
      obtain ⟨rfl, rfl⟩ := h.inj h₁ ha
      rw [place_self, place_self]
      rfl
    · rw [place_of_ne hba, h.inner h₁ hk' i hi, place_of_ne fun hq => hba ?_]
      obtain ⟨hk'', hpp⟩ := hq
      obtain rfl := Nat.succ.inj hk''
      obtain ⟨rfl, rfl⟩ := child_inj hi hj hpp
      rw [ha, Option.some.injEq] at h₁
      exact ⟨h₁.symm, rfl⟩

theorem prune_leaf (h : Tree F D ptr word addr) (ha : addr k p = some a) (hk : k < D) (hj : j < F)
    (hc : addr (k + 1) (p * F + j) = some c) (hz : ∀ i < F, word c i = 0) (q : Nat) :
    leaf (place word a j 0) (place addr (k + 1) (p * F + j) none) D F q = leaf word addr D F q := by
  have hF : 0 < F := Nat.zero_lt_of_lt hj
  unfold leaf
  by_cases hkp : D = k + 1 ∧ q / F = p * F + j
  · obtain ⟨hD, hq⟩ := hkp
    rw [hD, hq, place_self, hc]
    exact (hz _ (Nat.mod_lt q hF)).symm
  · rw [place_of_ne hkp]
    cases hb : addr D (q / F) with
    | none => rfl
    | some b =>
      refine place_of_ne fun hba => ?_
      obtain rfl := hba.1
      exact absurd (h.inj hb ha).1 (Nat.ne_of_gt hk)

end Tree

/-! ## The tables -/

theorem Owned.prune (h : Owned addr tables) (ht : Tree F D ptr word addr) (hc : addr k p = some c) :
    Owned (place addr k p none) (tables.erase c) := by
  refine ⟨h.nodup.erase c, fun x => ?_⟩
  rw [h.nodup.mem_erase_iff, h.mem]
  constructor
  · intro hx
    obtain ⟨hxc, k', p', hkp⟩ := hx
    refine ⟨k', p', ?_⟩
    rw [place_of_ne fun he => hxc ?_, hkp]
    rw [he.1, he.2, hc] at hkp
    exact (Option.some.inj hkp).symm
  · intro hx
    obtain ⟨k', p', hkp⟩ := hx
    unfold place at hkp
    split at hkp
    · cases hkp
    · rename_i hne
      refine ⟨fun hxc => hne ?_, k', p', hkp⟩
      subst hxc
      exact ht.inj hkp hc

/-! ## Tables with words -/

/-- A table that has got a child is busy; the child is not. -/
theorem Busy.grow (h : Busy F word addr e) (he : e = none ∨ e = some a) (hj : j < F)
    (hv : v ≠ 0) (q : Nat) :
    Busy F (place word a j v) (place addr (k + 1) q (some b)) (some b) := by
  intro k' p' c hc hne
  by_cases hca : c = a
  · exact ⟨j, hj, by rw [hca, place_self]; exact hv⟩
  · unfold place at hc
    split at hc
    · exact absurd hc hne
    · obtain ⟨i, hi, hw⟩ := h k' p' c hc fun hec => by
        rcases he with rfl | rfl
        · cases hec
        · exact hca (Option.some.inj hec).symm
      exact ⟨i, hi, by rwa [place_of_ne fun hci => hca hci.1]⟩

theorem Busy.write (h : Busy F word addr e) (he : e = none ∨ e = some a) (hj : j < F)
    (hv : v ≠ 0) : Busy F (place word a j v) addr none := by
  intro k' p' c hc _
  by_cases hca : c = a
  · exact ⟨j, hj, by rw [hca, place_self]; exact hv⟩
  · obtain ⟨i, hi, hw⟩ := h k' p' c hc fun hec => by
      rcases he with rfl | rfl
      · cases hec
      · exact hca (Option.some.inj hec).symm
    exact ⟨i, hi, by rwa [place_of_ne fun hci => hca hci.1]⟩

theorem Busy.clear (h : Busy F word addr none) (v : β) :
    Busy F (place word a j v) addr (some a) := by
  intro k' p' c hc hne
  obtain ⟨i, hi, hw⟩ := h k' p' c hc (Option.some_ne_none c).symm
  refine ⟨i, hi, ?_⟩
  rw [place_of_ne fun hci => hne (congrArg some hci.1.symm)]
  exact hw

/-- The parent of a table that goes may be left without words. -/
theorem Busy.prune (h : Busy F word addr (some c)) (hc : addr (k + 1) q = some c)
    (ht : Tree F D ptr word addr) :
    Busy F (place word a j 0) (place addr (k + 1) q none) (some a) := by
  intro k' p' b hb hne
  unfold place at hb
  split at hb
  · cases hb
  · rename_i hkp
    obtain ⟨i, hi, hw⟩ := h k' p' b hb fun hcb => hkp (by
      obtain rfl := Option.some.inj hcb
      exact ht.inj hb hc)
    refine ⟨i, hi, ?_⟩
    rw [place_of_ne fun hci => hne (congrArg some hci.1.symm)]
    exact hw

theorem Busy.done (h : Busy F word addr (some a)) (ha : ∃ j < F, word a j ≠ 0) :
    Busy F word addr none := by
  intro k p b hb _
  by_cases hab : a = b
  · exact hab ▸ ha
  · exact h k p b hb fun he => hab (Option.some.inj he)

end Radix
