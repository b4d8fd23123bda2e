import SlabKernel.Buddy.Tiling
import SlabKernel.Lib.Radix
import SlabKernel.Mmu.Model

/-!
# The tables in memory

The tables of the page table are a radix tree in memory (`MMU.Rep`): three levels of pages of the
buddy allocator with 512 words each. The moves of `Lib/Radix.lean` are here those of the code: a page
from `pgalloc` becomes a child (`Rep.grow`), a leaf is written (`Rep.write`), a child without entries
is taken out (`Rep.prune`) and given back (`Rep.free`).
-/

namespace SlabKernel

open Function (update update_self update_of_ne)
open Radix EntryBits

/-- The number of entries of a table. -/
abbrev entryNum : Nat := 512

/-- The index of the page of `vaddr` among all pages below `2 ^ 39`. -/
def slot (vaddr : Nat) : Nat := vaddr / pageSize % 2 ^ 27

/-- The entry that `map` writes. -/
def pgDesc (vaddr bits : Nat) : Nat := pageOf vaddr / 2 ^ 2 ||| Valid ||| bits

namespace MMU

/-! ## Entries -/

theorem valid_iff (e : Nat) : valid e ↔ e % 2 = 1 := by
  unfold valid Valid
  rw [Nat.pow_zero, Nat.and_one_is_mod]
  omega

theorem not_valid_zero : ¬ valid 0 := by decide

theorem lor_valid_mod (a b : Nat) : (a ||| Valid ||| b) % 2 = 1 := by
  have h := Nat.testBit_zero (a ||| Valid ||| b)
  rw [Nat.testBit_or, Nat.testBit_or, show Valid.testBit 0 = true by decide, Bool.or_true,
    Bool.true_or] at h
  exact of_decide_eq_true h.symm

theorem valid_tableEntry (t : Nat) : valid (tableEntry t) := by
  rw [valid_iff]
  have := lor_valid_mod (t / 2 ^ 2) 0
  rwa [Nat.or_zero] at this

theorem valid_pgDesc (vaddr bits : Nat) : valid (pgDesc vaddr bits) :=
  (valid_iff _).2 (lor_valid_mod _ _)

theorem valid_ne_zero {e : Nat} (h : valid e) : e ≠ 0 := fun h0 => not_valid_zero (h0 ▸ h)

/-- `PAGE_ALIGN` inverts the encoding of a table's address. -/
theorem PAGE_ALIGN_tableEntry {t : Nat} (h : pageSize ∣ t) : PAGE_ALIGN (tableEntry t) = t := by
  obtain ⟨m, rfl⟩ := h
  unfold PAGE_ALIGN tableEntry Valid pageSize
  rw [show 4096 * m / 2 ^ 2 = 2 ^ 10 * m by omega, Nat.pow_zero,
    ← Nat.two_pow_add_eq_or_of_lt (by decide)]
  omega

/-! ## Addresses -/

theorem vpn_lt (vaddr level : Nat) : vpn vaddr level < entryNum := Nat.mod_lt _ (by decide)

theorem vpn_pageOf (vaddr level : Nat) : vpn (pageOf vaddr) level = vpn vaddr level := by
  unfold vpn pageOf pageSize
  rw [Nat.pow_add, ← Nat.div_div_eq_div_mul, ← Nat.div_div_eq_div_mul vaddr,
    show (2 : Nat) ^ 12 = 4096 by decide, Nat.mul_div_cancel _ (by decide)]

/-- The three indices are the digits of the slot. -/
theorem slot_digits (vaddr : Nat) :
    slot vaddr = (vpn vaddr 2 * entryNum + vpn vaddr 1) * entryNum + vpn vaddr 0 := by
  unfold slot vpn pageSize entryNum
  omega

/-- Two entries of tables share no word. -/
theorem entry_addr {t t' i i' : Nat} (ht : pageSize ∣ t) (ht' : pageSize ∣ t') (hi : i < entryNum)
    (hi' : i' < entryNum) (h : t' + sizeofWord * i' = t + sizeofWord * i) : t' = t ∧ i' = i := by
  obtain ⟨m, rfl⟩ := ht
  obtain ⟨m', rfl⟩ := ht'
  unfold pageSize sizeofWord entryNum at *
  omega

variable {s s' : MMU} {addr : Nat → Nat → Option Nat} {tables : List Nat}
  {extra : List (Nat × Nat)} {e : Option Nat} {t t' i i' k p j a c q v vaddr : Nat}

theorem entry_setEntry (ht : pageSize ∣ t) (ht' : pageSize ∣ t') (hi : i < entryNum)
    (hi' : i' < entryNum) (v : Nat) :
    (s.setEntry t i v).entry t' i' = place s.entry t i v t' i' := by
  unfold entry setEntry place
  split
  · rename_i h
    rw [h.1, h.2]
    exact update_self _ _ _
  · rename_i h
    exact update_of_ne (fun he => h (entry_addr ht ht' hi hi' he)) _ _

/-- `zeroInit` clears a table and no other one. -/
theorem zeroInit_spec (ht : pageSize ∣ t) {n : Nat} (hn : n ≤ entryNum) :
    (∀ i < n, (s.zeroInit t n).entry t i = 0) ∧
    (∀ t' i, pageSize ∣ t' → t' ≠ t → i < entryNum → (s.zeroInit t n).entry t' i = s.entry t' i) ∧
    (s.zeroInit t n).rootTablePointer = s.rootTablePointer ∧
    (s.zeroInit t n).sections = s.sections ∧ (s.zeroInit t n).buddy = s.buddy := by
  induction n with
  | zero => exact ⟨fun i hi => absurd hi (Nat.not_lt_zero i), fun _ _ _ _ _ => rfl, rfl, rfl, rfl⟩
  | succ n ih =>
    obtain ⟨h1, h2, h3, h4, h5⟩ := ih (Nat.le_of_succ_le hn)
    have hsucc : s.zeroInit t (n + 1) = (s.zeroInit t n).setEntry t n 0 := by
      unfold zeroInit
      rw [List.range_succ, List.foldl_append]
      rfl
    rw [hsucc]
    refine ⟨fun i hi => ?_, fun t' i ht' hne hi => ?_, h3, h4, h5⟩
    · rw [entry_setEntry ht ht hn (Nat.lt_of_lt_of_le hi hn)]
      by_cases hin : i = n
      · rw [hin, place_self]
      · rw [place_of_ne fun hc => hin hc.2]
        exact h1 i (by omega)
    · rw [entry_setEntry ht ht' hn hi, place_of_ne fun hc => hne hc.1]
      exact h2 t' i ht' hne hi

/-- `pgalloc` gives a page without entries that no live block contains. -/
theorem pgalloc_spec {live : List (Nat × Nat)} (hb : Buddy.Inv s.buddy live)
    (hstart : blockSize ∣ s.buddy.kernelStartAddr) :
    ((s.buddy.alloc 0).1 = none ∧ s.pgalloc 0 = none) ∨
    ∃ t s', s.pgalloc 0 = some (t, s') ∧ (s.buddy.alloc 0).1 = some t ∧
      s'.buddy = (s.buddy.alloc 0).2 ∧ Buddy.Inv s'.buddy ((t, 0) :: live) ∧
      Buddy.SameGeom s.buddy s'.buddy ∧ s'.rootTablePointer = s.rootTablePointer ∧
      s'.sections = s.sections ∧ pageSize ∣ t ∧ (∀ i < entryNum, s'.entry t i = 0) ∧
      ∀ t' i, pageSize ∣ t' → t' ≠ t → i < entryNum → s'.entry t' i = s.entry t' i := by
  rcases hb.alloc 0 with hn | ⟨t, b, he, hg, -, -, hinv⟩
  · have hn' : s.buddy.alloc ((0 : Nat) : Int) = (none, s.buddy) := hn
    refine .inl ⟨by rw [hn], ?_⟩
    unfold MMU.pgalloc
    rw [hn']
  · have he' : s.buddy.alloc ((0 : Nat) : Int) = (some t, b) := he
    have ht : pageSize ∣ t := hinv.page (hg.start ▸ hstart) (.head _)
    obtain ⟨h1, h2, h3, h4, h5⟩ := zeroInit_spec (s := { s with buddy := b }) ht
      (Nat.le_refl entryNum)
    refine .inr ⟨t, _, ?_, by rw [he], h5.trans (by rw [he]), ?_, ?_, h3, h4, ht, h1, h2⟩
    · unfold MMU.pgalloc
      rw [he']
      rfl
    · rw [h5]
      exact hinv
    · rw [h5]
      exact hg

/-! ## The tree -/

/-- The tables of `s` are at `addr`; they are the pages `tables` of the buddy allocator, whose other
live blocks are `extra`. None but the root and `e` is without entries. -/
structure Rep (s : MMU) (addr : Nat → Nat → Option Nat) (tables : List Nat)
    (extra : List (Nat × Nat)) (e : Option Nat) : Prop where
  tree : Tree entryNum 2 tableEntry s.entry addr
  root : addr 0 0 = s.rootTablePointer
  owned : Owned addr tables
  buddy : Buddy.Inv s.buddy (tables.map (·, 0) ++ extra)
  start : blockSize ∣ s.buddy.kernelStartAddr
  busy : Busy entryNum s.entry addr e

/-- The entry of the page of the slot `q`. -/
abbrev leafOf (s : MMU) (addr : Nat → Nat → Option Nat) (q : Nat) : Nat :=
  leaf s.entry addr 2 entryNum q

/-- What the operations on tables leave alone. -/
structure Same (s s' : MMU) : Prop where
  root : s'.rootTablePointer = s.rootTablePointer
  sections : s'.sections = s.sections
  geom : Buddy.SameGeom s.buddy s'.buddy

theorem Same.rfl : Same s s := ⟨Eq.refl _, Eq.refl _, .rfl⟩

theorem Same.trans {s'' : MMU} (h : Same s s') (h' : Same s' s'') : Same s s'' :=
  ⟨h'.root.trans h.root, h'.sections.trans h.sections, h.geom.trans h'.geom⟩

namespace Rep

theorem live (h : Rep s addr tables extra e) (ha : addr k p = some a) :
    (a, 0) ∈ tables.map (·, 0) ++ extra :=
  List.mem_append_left _ (List.mem_map.2 ⟨a, (h.owned.mem a).2 ⟨k, p, ha⟩, rfl⟩)

theorem aligned (h : Rep s addr tables extra e) (ha : addr k p = some a) : pageSize ∣ a :=
  h.buddy.page h.start (h.live ha)

/-- An entry of an upper table: 0, or the address of the child. -/
theorem entry_eq (h : Rep s addr tables extra e) (ha : addr k p = some a) (hk : k < 2)
    (hj : j < entryNum) : s.entry a j = (addr (k + 1) (p * entryNum + j)).elim 0 tableEntry :=
  h.tree.inner ha hk j hj

theorem valid_entry (h : Rep s addr tables extra e) (ha : addr k p = some a) (hk : k < 2)
    (hj : j < entryNum) : valid (s.entry a j) ↔ addr (k + 1) (p * entryNum + j) ≠ none := by
  rw [h.entry_eq ha hk hj]
  cases addr (k + 1) (p * entryNum + j) with
  | none => exact iff_of_false not_valid_zero (not_not_intro rfl)
  | some c => exact iff_of_true (valid_tableEntry c) (Option.some_ne_none c)

theorem align_entry (h : Rep s addr tables extra e) (ha : addr k p = some a) (hk : k < 2)
    (hj : j < entryNum) (hc : addr (k + 1) (p * entryNum + j) = some c) :
    PAGE_ALIGN (s.entry a j) = c := by
  rw [h.entry_eq ha hk hj, hc]
  exact PAGE_ALIGN_tableEntry (h.aligned hc)

/-- The memory of the tables has not changed. -/
theorem congr {extra' : List (Nat × Nat)} (h : Rep s addr tables extra e)
    (hw : ∀ {k p a}, addr k p = some a → ∀ j < entryNum, s'.entry a j = s.entry a j)
    (hroot : s'.rootTablePointer = s.rootTablePointer)
    (hb : Buddy.Inv s'.buddy (tables.map (·, 0) ++ extra'))
    (hg : Buddy.SameGeom s.buddy s'.buddy) :
    Rep s' addr tables extra' e ∧ ∀ q, s'.leafOf addr q = s.leafOf addr q :=
  ⟨⟨h.tree.congr hw, h.root.trans hroot.symm, h.owned, hb, hg.start ▸ h.start, h.busy.congr hw⟩,
    leaf_congr (by decide) hw⟩

/-- `pgalloc` gives a page without entries that is none of the tables. -/
theorem pgalloc (h : Rep s addr tables extra e) :
    ((s.buddy.alloc 0).1 = none ∧ s.pgalloc 0 = none) ∨
    ∃ t s', s.pgalloc 0 = some (t, s') ∧ Rep s' addr tables ((t, 0) :: extra) e ∧ Same s s' ∧
      (∀ q, s'.leafOf addr q = s.leafOf addr q) ∧ (∀ i < entryNum, s'.entry t i = 0) ∧
      (∀ k p, addr k p ≠ some t) ∧ (s.buddy.alloc 0).1 = some t ∧ s'.buddy = (s.buddy.alloc 0).2 ∧
      pageSize ∣ t ∧
      ∀ {k p a}, addr k p = some a → ∀ j < entryNum, s'.entry a j = s.entry a j := by
  rcases pgalloc_spec h.buddy h.start with
    hn | ⟨t, s', he, hb, hb', hinv, hg, hroot, hsec, ht, hz, hother⟩
  · exact .inl hn
  · have hfresh : ∀ k p, addr k p ≠ some t := fun k p hp =>
      (List.nodup_cons.1 hinv.1).1 (h.live hp)
    have hw : ∀ {k p a}, addr k p = some a → ∀ j < entryNum, s'.entry a j = s.entry a j :=
      fun {k p a} ha j hj =>
        hother a j (h.aligned ha) (fun he => hfresh k p (he ▸ ha)) hj
    obtain ⟨hrep, hleaf⟩ := h.congr hw hroot
      (hinv.perm List.perm_middle.symm) hg
    exact .inr ⟨t, s', he, hrep, ⟨hroot, hsec, hg⟩, hleaf, hz, hfresh, hb, hb', ht, hw⟩

/-- The page `t` becomes a child. -/
theorem grow (h : Rep s addr tables ((t, 0) :: extra) e) (ha : addr k p = some a) (hk : k < 2)
    (hj : j < entryNum) (hnone : addr (k + 1) (p * entryNum + j) = none)
    (ht : ∀ k p, addr k p ≠ some t) (hz : ∀ i < entryNum, s.entry t i = 0) (hta : pageSize ∣ t)
    (he : e = none ∨ e = some a) :
    Rep (s.setEntry a j (tableEntry t)) (place addr (k + 1) (p * entryNum + j) (some t))
      (t :: tables) extra (some t) ∧
    (∀ q, (s.setEntry a j (tableEntry t)).leafOf
      (place addr (k + 1) (p * entryNum + j) (some t)) q = s.leafOf addr q) := by
  have haa := h.aligned ha
  have hw : ∀ {k' p' b}, place addr (k + 1) (p * entryNum + j) (some t) k' p' = some b →
      ∀ i < entryNum, (s.setEntry a j (tableEntry t)).entry b i =
        place s.entry a j (tableEntry t) b i := by
    intro k' p' b hb i hi
    refine entry_setEntry haa ?_ hj hi _
    unfold place at hb
    split at hb
    · exact Option.some.inj hb ▸ hta
    · exact h.aligned hb
  refine ⟨⟨(h.tree.grow ha hk hj hnone ht hz).congr hw, ?_, h.owned.grow hnone ht, ?_, h.start,
    (h.busy.grow he hj (valid_ne_zero (valid_tableEntry t)) _).congr hw⟩, fun q => ?_⟩
  · rw [place_of_ne fun hc => absurd hc.1 (Nat.succ_ne_zero k).symm]
    exact h.root
  · exact h.buddy.perm List.perm_middle
  · exact (leaf_congr (by decide) hw q).trans
      (h.tree.grow_leaf ha hk hj hnone ht hz q)

/-- An entry of a last table is written. -/
theorem write (h : Rep s addr tables extra e) (ha : addr 2 p = some a) (hj : j < entryNum)
    (hv : v ≠ 0) (he : e = none ∨ e = some a) :
    Rep (s.setEntry a j v) addr tables extra none ∧
    ∀ q, (s.setEntry a j v).leafOf addr q =
      if q = p * entryNum + j then v else s.leafOf addr q := by
  have hw : ∀ {k' p' b}, addr k' p' = some b → ∀ i < entryNum,
      (s.setEntry a j v).entry b i = place s.entry a j v b i :=
    fun hb i hi => entry_setEntry (h.aligned ha) (h.aligned hb) hj hi v
  refine ⟨⟨(h.tree.write ha v).congr hw, h.root, h.owned, h.buddy, h.start,
    (h.busy.write he hj hv).congr hw⟩, fun q => ?_⟩
  exact (leaf_congr (by decide) hw q).trans (h.tree.write_leaf ha hj v q)

/-- An entry of a last table is cleared; it may be the last one of the table. -/
theorem clear (h : Rep s addr tables extra none) (ha : addr 2 p = some a) (hj : j < entryNum) :
    Rep (s.setEntry a j 0) addr tables extra (some a) ∧
    ∀ q, (s.setEntry a j 0).leafOf addr q =
      if q = p * entryNum + j then 0 else s.leafOf addr q := by
  have hw : ∀ {k' p' b}, addr k' p' = some b → ∀ i < entryNum,
      (s.setEntry a j 0).entry b i = place s.entry a j 0 b i :=
    fun hb i hi => entry_setEntry (h.aligned ha) (h.aligned hb) hj hi 0
  refine ⟨⟨(h.tree.write ha 0).congr hw, h.root, h.owned, h.buddy, h.start,
    (h.busy.clear 0).congr hw⟩, fun q => ?_⟩
  exact (leaf_congr (by decide) hw q).trans (h.tree.write_leaf ha hj 0 q)

/-- A table with an entry need not be exempt. -/
theorem done (h : Rep s addr tables extra (some a)) (ho : s.occupied a) :
    Rep s addr tables extra none := { h with busy := h.busy.done ho }

/-- Nor need the root. -/
theorem done_root (h : Rep s addr tables extra (some a)) (ha : s.rootTablePointer = some a) :
    Rep s addr tables extra none := { h with busy := h.busy.root h.tree (h.root.trans ha) }

/-- A child without entries is taken out; its page is no longer a table. -/
theorem prune (h : Rep s addr tables extra (some c)) (ha : addr k p = some a) (hk : k < 2)
    (hj : j < entryNum) (hc : addr (k + 1) (p * entryNum + j) = some c)
    (hz : ∀ i < entryNum, s.entry c i = 0) :
    Rep (s.setEntry a j 0) (place addr (k + 1) (p * entryNum + j) none) (tables.erase c)
      ((c, 0) :: extra) (some a) ∧
    ∀ q, (s.setEntry a j 0).leafOf (place addr (k + 1) (p * entryNum + j) none) q =
      s.leafOf addr q := by
  have hptr : ∀ t, tableEntry t ≠ 0 := fun t => valid_ne_zero (valid_tableEntry t)
  have htree := h.tree.prune hptr ha hj hc hz
  have hw : ∀ {k' p' b}, place addr (k + 1) (p * entryNum + j) none k' p' = some b →
      ∀ i < entryNum, (s.setEntry a j 0).entry b i = place s.entry a j 0 b i := by
    intro k' p' b hb i hi
    unfold place at hb
    split at hb
    · cases hb
    · exact entry_setEntry (h.aligned ha) (h.aligned hb) hj hi 0
  have hmem := (h.owned.mem c).2 ⟨_, _, hc⟩
  refine ⟨⟨htree.congr hw, ?_, h.owned.prune h.tree hc, ?_, h.start,
    (h.busy.prune hc h.tree).congr hw⟩, fun q => ?_⟩
  · rw [place_of_ne fun hc => absurd hc.1 (Nat.succ_ne_zero k).symm]
    exact h.root
  · apply h.buddy.perm
    have hp := (List.perm_cons_erase hmem).map (·, 0)
    exact (hp.append_right extra).trans List.perm_middle.symm
  · exact (leaf_congr (by decide) hw q).trans (h.tree.prune_leaf ha hk hj hc hz q)

/-- The page goes back to the buddy allocator. -/
theorem free (h : Rep s addr tables ((c, 0) :: extra) e) :
    ∃ s', s.free c 0 = some s' ∧ Rep s' addr tables extra e ∧ Same s s' ∧ s'.entry = s.entry ∧
      s.buddy.free (some c) 0 = some (0, s'.buddy) := by
  have hnot : (c, 0) ∉ tables.map (·, 0) := fun hm =>
    (List.nodup_append.1 h.buddy.1).2.2 _ hm _ (.head _) rfl
  obtain ⟨b, hb, hg, hinv⟩ := h.buddy.free (List.mem_append_right _ (.head _))
  rw [List.erase_append_right _ hnot, List.erase_cons_head] at hinv
  refine ⟨{ s with buddy := b }, ?_, ⟨h.tree, h.root, h.owned, hinv, hg.start ▸ h.start, h.busy⟩,
    ⟨rfl, rfl, hg⟩, rfl, hb⟩
  unfold MMU.free
  rw [hb]
  rfl

end Rep

end MMU

end SlabKernel
