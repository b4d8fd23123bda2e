import SlabKernel.Mmu.Tables

/-!
# The operations on the page table

`walk` is the hardware's walk of the three levels. `map` and `invalid` are described by what they do
to the walk of every address: `Rep.map` and `Rep.invalid` for one page, `Rep.pmap` and `Rep.punmap`
for the pages from one to another. `map` is undefined iff a table is missing and the buddy allocator
does not supply it.
-/

namespace SlabKernel

open Function (update update_self update_of_ne)
open Radix EntryBits

/-- `n` calls of `alloc` for one block each succeed. -/
def Buddy.Supplies (b : Buddy) : Nat → Prop
  | 0 => True
  | n + 1 => (b.alloc 0).1 ≠ none ∧ (b.alloc 0).2.Supplies n

instance Buddy.decidableSupplies : ∀ (b : Buddy) (n : Nat), Decidable (b.Supplies n)
  | _, 0 => .isTrue trivial
  | b, n + 1 => @instDecidableAnd _ _ _ (decidableSupplies (b.alloc 0).2 n)

/-- The allocator after `n` calls of `alloc` for one block. -/
def Buddy.after (b : Buddy) : Nat → Buddy
  | 0 => b
  | n + 1 => (b.alloc 0).2.after n

theorem Buddy.supplies_add {b : Buddy} {m n : Nat} :
    b.Supplies (m + n) ↔ b.Supplies m ∧ (b.after m).Supplies n := by
  induction m generalizing b with
  | zero =>
    rw [Nat.zero_add]
    exact iff_of_eq (true_and _).symm
  | succ m ih =>
    rw [Nat.succ_add, Supplies, Supplies, ih, and_assoc]
    rfl

theorem Buddy.Supplies.mono {b : Buddy} {m n : Nat} (h : b.Supplies n) (hle : m ≤ n) :
    b.Supplies m := by
  obtain ⟨d, rfl⟩ := Nat.exists_eq_add_of_le hle
  exact (Buddy.supplies_add.1 h).1

namespace MMU

/-- The number of tables that `map` has to make for the page of `vaddr`. -/
def missing (s : MMU) (vaddr : Nat) : Nat :=
  s.rootTablePointer.elim 0 fun root =>
    if ¬ valid (s.entry root (vpn vaddr 2)) then 2
    else if ¬ valid (s.entry (PAGE_ALIGN (s.entry root (vpn vaddr 2))) (vpn vaddr 1)) then 1 else 0

/-- The entry for `vaddr` that a walk of the three levels finds; 0 if a table is missing. -/
def walk (s : MMU) (vaddr : Nat) : Nat :=
  s.rootTablePointer.elim 0 fun root =>
    if ¬ valid (s.entry root (vpn vaddr 2)) then 0
    else
      let levelTwo := PAGE_ALIGN (s.entry root (vpn vaddr 2))
      if ¬ valid (s.entry levelTwo (vpn vaddr 1)) then 0
      else s.entry (PAGE_ALIGN (s.entry levelTwo (vpn vaddr 1))) (vpn vaddr 0)

variable {s s' : MMU} {addr : Nat → Nat → Option Nat} {tables : List Nat}
  {extra : List (Nat × Nat)} {e : Option Nat} {root t k p j a c q v vaddr bits : Nat}

theorem slot_pageOf (vaddr : Nat) : slot (pageOf vaddr) = slot vaddr := by
  unfold slot pageOf pageSize
  rw [Nat.mul_div_cancel _ (by decide)]

theorem pageOf_pageOf (vaddr : Nat) : pageOf (pageOf vaddr) = pageOf vaddr := by
  unfold pageOf pageSize
  rw [Nat.mul_div_cancel _ (by decide)]

namespace Rep

/-- An entry of an upper table is not valid, or points to the child. -/
theorem child (h : Rep s addr tables extra e) (ha : addr k p = some a) (hk : k < 2)
    (hj : j < entryNum) :
    (¬ valid (s.entry a j) ∧ addr (k + 1) (p * entryNum + j) = none) ∨
    ∃ c, valid (s.entry a j) ∧ PAGE_ALIGN (s.entry a j) = c ∧
      addr (k + 1) (p * entryNum + j) = some c := by
  cases hc : addr (k + 1) (p * entryNum + j) with
  | none => exact .inl ⟨fun hv => (h.valid_entry ha hk hj).1 hv hc, rfl⟩
  | some c =>
    refine .inr ⟨c, (h.valid_entry ha hk hj).2 ?_, h.align_entry ha hk hj hc, rfl⟩
    rw [hc]
    exact Option.some_ne_none c

/-- The second table on the way to the page of `vaddr`. -/
theorem second (h : Rep s addr tables extra e) (hr : s.rootTablePointer = some root)
    (vaddr : Nat) :
    (¬ valid (s.entry root (vpn vaddr 2)) ∧ addr 1 (vpn vaddr 2) = none) ∨
    ∃ two, valid (s.entry root (vpn vaddr 2)) ∧ PAGE_ALIGN (s.entry root (vpn vaddr 2)) = two ∧
      addr 1 (vpn vaddr 2) = some two := by
  simpa only [Nat.zero_mul, Nat.zero_add] using
    h.child (h.root.trans hr) (by decide) (vpn_lt vaddr 2)

/-- The tables that are missing for a page. -/
theorem missing_eq (h : Rep s addr tables extra e) (hr : s.rootTablePointer ≠ none) (vaddr : Nat) :
    s.missing vaddr = if addr 1 (vpn vaddr 2) = none then 2
      else if addr 2 (vpn vaddr 2 * entryNum + vpn vaddr 1) = none then 1 else 0 := by
  obtain ⟨root, hr⟩ := Option.ne_none_iff_exists'.1 hr
  unfold missing
  rw [hr, Option.elim_some]
  rcases h.second hr vaddr with ⟨hn, h2⟩ | ⟨two, hv, hal, h2⟩
  · rw [if_pos hn, if_pos h2]
  · rw [if_neg (not_not_intro hv), hal, h2, if_neg (Option.some_ne_none two)]
    rcases h.child h2 (by decide) (vpn_lt vaddr 1) with ⟨hn, h3⟩ | ⟨three, hv, hal, h3⟩
    · rw [if_pos hn, if_pos h3]
    · rw [if_neg (not_not_intro hv), h3, if_neg (Option.some_ne_none three)]

/-- The digits above the last one give the third table. -/
theorem leafOf_slot (vaddr : Nat) : s.leafOf addr (slot vaddr) =
    (addr 2 (vpn vaddr 2 * entryNum + vpn vaddr 1)).elim 0 fun a => s.entry a (vpn vaddr 0) := by
  unfold leafOf leaf
  rw [slot_digits, div_add (vpn_lt vaddr 0), mod_add (vpn_lt vaddr 0)]

/-- The walk ends at the leaf of the address's slot. -/
theorem walk_eq (h : Rep s addr tables extra e) (hr : s.rootTablePointer ≠ none) (vaddr : Nat) :
    s.walk vaddr = s.leafOf addr (slot vaddr) := by
  obtain ⟨root, hr⟩ := Option.ne_none_iff_exists'.1 hr
  unfold walk
  rw [leafOf_slot, hr, Option.elim_some]
  rcases h.second hr vaddr with ⟨hn, h2⟩ | ⟨two, hv, hal, h2⟩
  · rw [if_pos hn]
    cases h3 : addr 2 (vpn vaddr 2 * entryNum + vpn vaddr 1) with
    | none => rfl
    | some three =>
      have := h.tree.child_none (vpn_lt vaddr 1) h2
      rw [h3] at this
      cases this
  · rw [if_neg (not_not_intro hv), hal]
    rcases h.child h2 (by decide) (vpn_lt vaddr 1) with ⟨hn, h3⟩ | ⟨three, hv, hal, h3⟩
    · simp only [if_pos hn, h3, Option.elim_none]
    · simp only [if_neg (not_not_intro hv), hal, h3, Option.elim_some]

/-! ## `map` -/

/-- A new table is made at a free entry. -/
theorem newTable (h : Rep s addr tables extra e) (ha : addr k p = some a) (hk : k < 2)
    (hj : j < entryNum) (hnone : addr (k + 1) (p * entryNum + j) = none)
    (he : e = none ∨ e = some a) :
    ((s.buddy.alloc 0).1 = none ∧ s.pgalloc 0 = none) ∨
    ∃ t s', s.pgalloc 0 = some (t, s') ∧
      Rep (s'.setEntry a j (tableEntry t)) (place addr (k + 1) (p * entryNum + j) (some t))
        (t :: tables) extra (some t) ∧
      Same s (s'.setEntry a j (tableEntry t)) ∧
      (∀ q, (s'.setEntry a j (tableEntry t)).leafOf
        (place addr (k + 1) (p * entryNum + j) (some t)) q = s.leafOf addr q) ∧
      (s.buddy.alloc 0).1 ≠ none ∧ s'.buddy = (s.buddy.alloc 0).2 := by
  rcases h.pgalloc with hn | ⟨t, s', he', hrep, hsame, hleaf, hz, hfresh, hb, hb', hal, -⟩
  · exact .inl hn
  · obtain ⟨hrep', hleaf'⟩ := hrep.grow ha hk hj hnone hfresh hz hal he
    refine .inr ⟨t, s', he', hrep', ⟨hsame.root, hsame.sections, hsame.geom⟩,
      fun q => (hleaf' q).trans (hleaf q), ?_, hb'⟩
    rw [hb]
    exact Option.some_ne_none t

/-- The last table on the way to a page is found or made, unless memory is short. -/
theorem findLevelThree (h : Rep s addr tables extra none) (hr : s.rootTablePointer ≠ none)
    (vaddr : Nat) :
    (¬ s.buddy.Supplies (s.missing vaddr) ∧ s.findLevelThree vaddr = none) ∨
    ∃ t s' addr' tables' e, s.findLevelThree vaddr = some (t, s') ∧
      s.buddy.Supplies (s.missing vaddr) ∧ Rep s' addr' tables' extra e ∧ (e = none ∨ e = some t) ∧
      addr' 2 (vpn vaddr 2 * entryNum + vpn vaddr 1) = some t ∧ Same s s' ∧
      s'.buddy = s.buddy.after (s.missing vaddr) ∧ ∀ q, s'.leafOf addr' q = s.leafOf addr q := by
  obtain ⟨root, hr⟩ := Option.ne_none_iff_exists'.1 hr
  have ha : addr 0 0 = some root := h.root.trans hr
  unfold MMU.findLevelThree missing
  simp only [hr, Option.bind_eq_bind, Option.bind_some, Option.elim_some]
  rcases h.second hr vaddr with ⟨hn, h2⟩ | ⟨two, hv, hal, h2⟩
  · simp only [if_pos hn]
    have h2' : addr (0 + 1) (0 * entryNum + vpn vaddr 2) = none := by
      simpa only [Nat.zero_mul, Nat.zero_add] using h2
    rcases h.newTable ha (by decide) (vpn_lt vaddr 2) h2' (.inl rfl) with
      ⟨hs, he⟩ | ⟨two, s₁, he, h₁, hsame₁, hleaf₁, hs, hb₁⟩
    · exact .inl ⟨fun hc => hc.1 hs, by rw [he]; rfl⟩
    simp only [he, Option.bind_some]
    simp only [Nat.zero_mul, Nat.zero_add] at h₁ hleaf₁
    have h2₁ : place addr 1 (vpn vaddr 2) (some two) 1 (vpn vaddr 2) = some two :=
      place_self _ _ _ _
    have h3₁ : place addr 1 (vpn vaddr 2) (some two) (1 + 1)
        (vpn vaddr 2 * entryNum + vpn vaddr 1) = none := by
      rw [place_of_ne fun hc => absurd hc.1 (by decide)]
      exact h.tree.child_none (vpn_lt vaddr 1) h2
    rcases h₁.newTable h2₁ (by decide) (vpn_lt vaddr 1) h3₁ (.inr rfl) with
      ⟨hs', he'⟩ | ⟨three, s₂, he', h₂, hsame₂, hleaf₂, hs', hb₂⟩
    · refine .inl ⟨fun hc => hc.2.1 ?_, by rw [he']; rfl⟩
      rw [← hb₁]
      exact hs'
    · rw [he']
      refine .inr ⟨three, _, _, _, _, rfl, ⟨hs, ?_, trivial⟩, h₂, .inr rfl, place_self _ _ _ _,
        hsame₁.trans hsame₂, ?_, fun q => (hleaf₂ q).trans (hleaf₁ q)⟩
      · rw [← hb₁]
        exact hs'
      · exact hb₂.trans (by rw [show (s₁.setEntry _ _ _).buddy = s₁.buddy from rfl, hb₁]; rfl)
  · simp only [if_neg (not_not_intro hv), hal]
    rcases h.child h2 (by decide) (vpn_lt vaddr 1) with ⟨hn, h3⟩ | ⟨three, hv, hal, h3⟩
    · simp only [if_pos hn]
      rcases h.newTable h2 (by decide) (vpn_lt vaddr 1) h3 (.inl rfl) with
        ⟨hs, he⟩ | ⟨three, s₁, he, h₁, hsame₁, hleaf₁, hs, hb₁⟩
      · exact .inl ⟨fun hc => hc.1 hs, by rw [he]; rfl⟩
      · rw [he]
        exact .inr ⟨three, _, _, _, _, rfl, ⟨hs, trivial⟩, h₁, .inr rfl, place_self _ _ _ _,
          hsame₁, hb₁, hleaf₁⟩
    · simp only [if_neg (not_not_intro hv), hal]
      exact .inr ⟨three, s, addr, tables, none, rfl, trivial, h, .inl rfl, h3, .rfl, rfl,
        fun _ => rfl⟩

end Rep

/-- A page table whose tables are pages of the buddy allocator, beside the blocks `extra`; no table
below the root is without entries. -/
def Inv (s : MMU) (extra : List (Nat × Nat)) : Prop :=
  s.rootTablePointer ≠ none ∧ ∃ addr tables, Rep s addr tables extra none

theorem missing_pageOf (s : MMU) (vaddr : Nat) : s.missing (pageOf vaddr) = s.missing vaddr := by
  unfold missing
  simp only [vpn_pageOf]

/-- One page is mapped, unless memory is short. -/
theorem Inv.map (h : s.Inv extra) (vaddr bits : Nat) :
    (¬ s.buddy.Supplies (s.missing vaddr) ∧ s.map vaddr bits = none) ∨
    ∃ s', s.map vaddr bits = some s' ∧ s.buddy.Supplies (s.missing vaddr) ∧ s'.Inv extra ∧
      Same s s' ∧
      (∀ w, s'.walk w = if slot w = slot vaddr then pgDesc vaddr bits else s.walk w) ∧
      s'.buddy = s.buddy.after (s.missing vaddr) ∧
      ∀ w, slot w / entryNum = slot vaddr / entryNum → s'.missing w = 0 := by
  obtain ⟨hr, addr, tables, hrep⟩ := h
  unfold MMU.map
  rcases hrep.findLevelThree hr (pageOf vaddr) with
    ⟨hs, he⟩ | ⟨t, s₁, addr', tables', e, he, hs, h₁, hex, ht, hsame, hafter, hleaf⟩
  · refine .inl ⟨fun hc => hs ?_, ?_⟩
    · rwa [missing_pageOf]
    · simp only [he, Option.bind_eq_bind, Option.bind_none]
  · obtain ⟨h₂, hleaf₂⟩ := h₁.write ht (vpn_lt (pageOf vaddr) 0)
      (valid_ne_zero (valid_pgDesc vaddr bits)) hex
    have hr₁ : s₁.rootTablePointer ≠ none := by rwa [hsame.root]
    refine .inr ⟨s₁.setEntry t (vpn (pageOf vaddr) 0) (pgDesc vaddr bits), ?_, ?_,
      ⟨hr₁, addr', tables', h₂⟩, ⟨hsame.root, hsame.sections, hsame.geom⟩, fun w => ?_, ?_,
      fun w hw => ?_⟩
    · simp only [he, Option.bind_eq_bind, Option.bind_some]
      rfl
    · rwa [← missing_pageOf]
    · rw [h₂.walk_eq hr₁, hleaf₂, ← slot_digits, slot_pageOf, hleaf, hrep.walk_eq hr]
    · rw [← missing_pageOf]
      exact hafter
    · rw [h₂.missing_eq hr₁]
      rw [← slot_pageOf vaddr, slot_digits, slot_digits, div_add (vpn_lt w 0),
        div_add (vpn_lt _ 0)] at hw
      rw [hw, ht, if_neg (Option.some_ne_none t)]
      refine if_neg fun hn => ?_
      have := h₂.tree.child_none (vpn_lt w 1) hn
      rw [hw, ht] at this
      cases this

/-! ## `invalid` -/

/-- Tables without entries are given back from the last one up. -/
theorem Rep.unmapTables {two three : Nat} (h : Rep s addr tables extra (some three))
    (hr : s.rootTablePointer = some root) (h2 : addr 1 (vpn vaddr 2) = some two)
    (h3 : addr 2 (vpn vaddr 2 * entryNum + vpn vaddr 1) = some three) :
    ∃ s' addr' tables', s.unmapTables root two three vaddr = some s' ∧
      Rep s' addr' tables' extra none ∧ Same s s' ∧ ∀ q, s'.leafOf addr' q = s.leafOf addr q := by
  have hz : ∀ {s : MMU} {t}, ¬ s.occupied t → ∀ i < entryNum, s.entry t i = 0 :=
    fun hn i hi => not_not.1 fun hv => hn ⟨i, hi, hv⟩
  unfold MMU.unmapTables
  by_cases ho : s.occupied three
  · rw [if_pos ho]
    exact ⟨s, addr, tables, rfl, h.done ho, .rfl, fun _ => rfl⟩
  · rw [if_neg ho]
    obtain ⟨h₁, hleaf₁⟩ := h.prune h2 (by decide) (vpn_lt vaddr 1) h3 (hz ho)
    obtain ⟨s₂, he₂, h₂, hsame₂, hent₂, -⟩ := h₁.free
    have hleaf₂ : ∀ addr q, s₂.leafOf addr q = (s.setEntry two (vpn vaddr 1) 0).leafOf addr q := by
      intro addr q
      unfold leafOf
      rw [hent₂]
    have hsame : Same s s₂ := ⟨hsame₂.root, hsame₂.sections, hsame₂.geom⟩
    simp only [he₂, Option.bind_eq_bind, Option.bind_some]
    by_cases ho' : s₂.occupied two
    · rw [if_pos ho']
      exact ⟨s₂, _, _, rfl, h₂.done ho', hsame, fun q => (hleaf₂ _ q).trans (hleaf₁ q)⟩
    · rw [if_neg ho']
      have hr₂ : s₂.rootTablePointer = some root := hsame.root.trans hr
      have h2' : place addr (1 + 1) (vpn vaddr 2 * entryNum + vpn vaddr 1) none (0 + 1)
          (0 * entryNum + vpn vaddr 2) = some two := by
        rw [place_of_ne fun hc => absurd hc.1 (by decide)]
        simpa only [Nat.zero_mul, Nat.zero_add] using h2
      obtain ⟨h₃, hleaf₃⟩ := h₂.prune (h₂.root.trans hr₂) (by decide) (vpn_lt vaddr 2) h2' (hz ho')
      obtain ⟨s₄, he₄, h₄, hsame₄, hent₄, -⟩ := h₃.free
      refine ⟨s₄, _, _, he₄, h₄.done_root (hsame₄.root.trans hr₂),
        hsame.trans ⟨hsame₄.root, hsame₄.sections, hsame₄.geom⟩, fun q => ?_⟩
      unfold leafOf
      rw [hent₄]
      exact (hleaf₃ q).trans ((hleaf₂ _ q).trans (hleaf₁ q))

/-- One page is unmapped. -/
theorem Inv.invalid (h : s.Inv extra) (vaddr : Nat) :
    ∃ s', s.invalid vaddr .PAGE_UNMAP = some s' ∧ s'.Inv extra ∧ Same s s' ∧
      ∀ w, s'.walk w = if slot w = slot vaddr then 0 else s.walk w := by
  obtain ⟨hr, addr, tables, hrep⟩ := h
  obtain ⟨root, hroot⟩ := Option.ne_none_iff_exists'.1 hr
  -- without a table there is nothing to clear
  have hnone : addr 2 (vpn vaddr 2 * entryNum + vpn vaddr 1) = none →
      ∀ w, s.walk w = if slot w = slot vaddr then 0 else s.walk w := by
    intro h3 w
    split
    · rename_i hw
      rw [hrep.walk_eq hr, hw, Rep.leafOf_slot, h3, Option.elim_none]
    · rfl
  unfold MMU.invalid
  simp only [hroot, vpn_pageOf, Option.bind_eq_bind, Option.bind_some, if_true]
  rcases hrep.second hroot vaddr with ⟨hn, h2⟩ | ⟨two, hv, hal, h2⟩
  · rw [if_pos hn]
    exact ⟨s, rfl, ⟨hr, addr, tables, hrep⟩, .rfl, hnone (hrep.tree.child_none (vpn_lt vaddr 1) h2)⟩
  · simp only [if_neg (not_not_intro hv), hal]
    rcases hrep.child h2 (by decide) (vpn_lt vaddr 1) with ⟨hn, h3⟩ | ⟨three, hv, hal, h3⟩
    · rw [if_pos hn]
      exact ⟨s, rfl, ⟨hr, addr, tables, hrep⟩, .rfl, hnone h3⟩
    · simp only [if_neg (not_not_intro hv), hal]
      obtain ⟨h₁, hleaf₁⟩ := hrep.clear h3 (vpn_lt vaddr 0)
      obtain ⟨s₂, addr', tables', he, h₂, hsame, hleaf₂⟩ := h₁.unmapTables hroot h2 h3
      have hr₂ : s₂.rootTablePointer ≠ none := by
        rw [hsame.root]
        exact hr
      refine ⟨s₂, ?_, ⟨hr₂, addr', tables', h₂⟩, ⟨hsame.root, hsame.sections, hsame.geom⟩,
        fun w => ?_⟩
      · unfold MMU.unmapTables at he ⊢
        simp only [vpn_pageOf]
        exact he
      · rw [h₂.walk_eq hr₂, hleaf₂, hleaf₁, ← slot_digits, hrep.walk_eq hr]

/-! ## `pmap` and `punmap` -/

theorem slot_page {n : Nat} (hn : n < 2 ^ 27) : slot (n * pageSize) = n := by
  unfold slot pageSize
  omega

theorem pgDesc_congr {w : Nat} (h : pageOf w = pageOf vaddr) (bits : Nat) :
    pgDesc w bits = pgDesc vaddr bits := by
  unfold pgDesc
  rw [h]

theorem pmapLoop_succ {first n i : Nat} (hf : first + i < 2 ^ 27) :
    MMU.pmapLoop (first * pageSize) bits (n + 1) i s =
      (s.map ((first + i) * pageSize) bits).bind
        (MMU.pmapLoop (first * pageSize) bits n (i + 1)) := by
  have hv : (first * pageSize + i * pageSize) % 2 ^ 64 = (first + i) * pageSize := by
    unfold pageSize
    omega
  rw [← hv]
  rfl

/-- `n` pages from `first` on are mapped; `none` if memory is short at one of them. -/
theorem Inv.pmapLoop {n i : Nat} (h : s.Inv extra) (first : Nat) (hf : first + i + n ≤ 2 ^ 27) :
    (∃ k < n, ∃ s₁, MMU.pmapLoop (first * pageSize) bits k i s = some s₁ ∧
      ¬ s₁.buddy.Supplies (s₁.missing ((first + i + k) * pageSize)) ∧
      MMU.pmapLoop (first * pageSize) bits n i s = none) ∨
    ∃ s', MMU.pmapLoop (first * pageSize) bits n i s = some s' ∧ s'.Inv extra ∧ Same s s' ∧
      ∀ w, s'.walk w = if first + i ≤ slot w ∧ slot w < first + i + n then
        pgDesc (slot w * pageSize) bits else s.walk w := by
  induction n generalizing s i with
  | zero =>
    refine .inr ⟨s, rfl, h, .rfl, fun w => ?_⟩
    rw [if_neg (by omega)]
  | succ n ih =>
    have hstep : ∀ m, MMU.pmapLoop (first * pageSize) bits (m + 1) i s =
        (s.map ((first + i) * pageSize) bits).bind
          (MMU.pmapLoop (first * pageSize) bits m (i + 1)) := fun _ => pmapLoop_succ (by omega)
    rw [hstep]
    rcases h.map ((first + i) * pageSize) bits with ⟨hs, he⟩ | ⟨s₁, he, -, h₁, hsame₁, hwalk₁, -⟩
    · exact .inl ⟨0, Nat.zero_lt_succ n, s, rfl, hs, by rw [he, Option.bind_none]⟩
    · rw [he, Option.bind_some]
      rcases ih (i := i + 1) h₁ (by omega) with ⟨k, hk, s₂, he₂, hs₂, hn⟩ | ⟨s', he', h', hsame', hwalk'⟩
      · refine .inl ⟨k + 1, Nat.succ_lt_succ hk, s₂, ?_, ?_, hn⟩
        · rw [hstep, he, Option.bind_some]
          exact he₂
        · rwa [show first + i + (k + 1) = first + (i + 1) + k by omega]
      · refine .inr ⟨s', he', h', hsame₁.trans hsame', fun w => ?_⟩
        rw [hwalk', hwalk₁, slot_page (by omega)]
        by_cases hw : slot w = first + i
        · rw [if_neg (by omega), if_pos hw, if_pos (by omega), hw]
        · rw [if_neg hw]
          exact if_congr (by omega) rfl rfl

/-- The number that `pmap` and `punmap` count to. -/
theorem pageNum_eq {start end_ : Nat} (hle : start ≤ end_) (hlt : end_ < 2 ^ 39) :
    sub64 (pageOf end_) (pageOf start) / pageSize = end_ / pageSize - start / pageSize ∧
      start / pageSize ≤ end_ / pageSize ∧ end_ / pageSize < 2 ^ 27 := by
  unfold sub64 pageOf pageSize
  omega

/-- The pages from that of `start` to that of `end_` are mapped. -/
theorem Inv.pmap {start end_ : Nat} (h : s.Inv extra) (hle : start ≤ end_) (hlt : end_ < 2 ^ 39) :
    (∃ k ≤ end_ / pageSize - start / pageSize, ∃ s₁,
      MMU.pmapLoop (pageOf start) bits k 0 s = some s₁ ∧
      ¬ s₁.buddy.Supplies (s₁.missing (pageOf start + k * pageSize)) ∧
      s.pmap start end_ bits = none) ∨
    ∃ s', s.pmap start end_ bits = some s' ∧ s'.Inv extra ∧ Same s s' ∧
      ∀ w, s'.walk w = if start / pageSize ≤ slot w ∧ slot w ≤ end_ / pageSize then
        pgDesc (slot w * pageSize) bits else s.walk w := by
  obtain ⟨hnum, hdiv, hend⟩ := pageNum_eq hle hlt
  unfold MMU.pmap
  simp only [hnum]
  rcases h.pmapLoop (start / pageSize) (i := 0)
      (n := end_ / pageSize - start / pageSize + 1) (by omega) with
    ⟨k, hk, s₁, he, hs, hn⟩ | ⟨s', he, h', hsame, hwalk⟩
  · refine .inl ⟨k, Nat.le_of_lt_succ hk, s₁, he, ?_, hn⟩
    rwa [Nat.add_zero, Nat.add_mul] at hs
  · refine .inr ⟨s', he, h', hsame, fun w => ?_⟩
    rw [hwalk]
    exact if_congr (by omega) rfl rfl

theorem Inv.punmapLoop {n : Nat} (h : s.Inv extra) (first : Nat) (hf : first + n ≤ 2 ^ 27) :
    ∃ s', MMU.punmapLoop n (first * pageSize) s = some s' ∧ s'.Inv extra ∧ Same s s' ∧
      ∀ w, s'.walk w = if first ≤ slot w ∧ slot w < first + n then 0 else s.walk w := by
  induction n generalizing s first with
  | zero =>
    refine ⟨s, rfl, h, .rfl, fun w => ?_⟩
    rw [if_neg (by omega)]
  | succ n ih =>
    obtain ⟨s₁, he, h₁, hsame₁, hwalk₁⟩ := h.invalid (first * pageSize)
    obtain ⟨s', he', h', hsame', hwalk'⟩ := ih h₁ (first + 1) (by omega)
    have hv : (first * pageSize + pageSize) % 2 ^ 64 = (first + 1) * pageSize := by
      unfold pageSize
      omega
    refine ⟨s', ?_, h', hsame₁.trans hsame', fun w => ?_⟩
    · unfold MMU.punmapLoop
      rw [he, hv]
      exact he'
    · rw [hwalk', hwalk₁, slot_page (by omega)]
      by_cases hw : slot w = first
      · rw [if_neg (by omega), if_pos hw, if_pos (by omega)]
      · rw [if_neg hw]
        exact if_congr (by omega) rfl rfl

/-- The pages from that of `start` to that of `end_` are unmapped. -/
theorem Inv.punmap {start end_ : Nat} (h : s.Inv extra) (hle : start ≤ end_)
    (hlt : end_ < 2 ^ 39) :
    ∃ s', s.punmap start end_ = some s' ∧ s'.Inv extra ∧ Same s s' ∧
      ∀ w, s'.walk w = if start / pageSize ≤ slot w ∧ slot w ≤ end_ / pageSize then 0
        else s.walk w := by
  obtain ⟨hnum, hdiv, hend⟩ := pageNum_eq hle hlt
  unfold MMU.punmap
  simp only [hnum]
  rw [if_neg (Nat.not_le_of_lt ((Nat.sub_le _ _).trans_lt (hend.trans (by decide))))]
  obtain ⟨s', he, h', hsame, hwalk⟩ := h.punmapLoop (start / pageSize)
    (n := end_ / pageSize - start / pageSize + 1) (by omega)
  refine ⟨s', he, h', hsame, fun w => ?_⟩
  rw [hwalk]
  exact if_congr (by omega) rfl rfl

end MMU

end SlabKernel
