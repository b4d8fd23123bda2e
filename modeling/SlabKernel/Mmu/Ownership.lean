import Mathlib.Data.List.Nodup
import SlabKernel.Buddy.Canonical
import SlabKernel.Mmu.Runs

/-!
# Who owns the tables

`children s t` are the tables that the valid entries of `t` point to, `subtables` all tables below
the root in the order in which `MMUFinalize` gives them back. After any run they are pairwise
different, none is without entries, and they and the root are what the buddy allocator has handed out
beside the blocks of others (`tables_owned`); `MMUFinalize` gives each of them back once.
-/

namespace SlabKernel

open Radix Runs

namespace MMU

/-- The table that an entry points to, if it is valid. -/
def childAt (s : MMU) (table i : Nat) : Option Nat :=
  if valid (s.entry table i) then some (PAGE_ALIGN (s.entry table i)) else none

/-- The tables that the valid entries of `table` point to. -/
def children (s : MMU) (table : Nat) : List Nat :=
  (List.range entryNum).filterMap (s.childAt table)

/-- The tables below `root`: the third level of each table of the second before it. -/
def subtables (s : MMU) (root : Nat) : List Nat :=
  (s.children root).flatMap fun levelTwo => s.children levelTwo ++ [levelTwo]

variable {s s' : MMU} {addr : Nat → Nat → Option Nat} {tables : List Nat}
  {extra : List (Nat × Nat)} {root k p a t : Nat}

/-! ## `MMUFinalize` -/

/-- `free` of a list of tables. -/
def freeTables (s : MMU) (l : List Nat) : Option MMU :=
  (s.buddy.freeAll (l.map (·, 0))).map fun b => { s with buddy := b }

theorem freeTables_nil (s : MMU) : s.freeTables [] = some s := rfl

theorem freeTables_cons (s : MMU) (t : Nat) (l : List Nat) :
    s.freeTables (t :: l) = (s.free t 0).bind (·.freeTables l) := by
  unfold freeTables MMU.free
  rw [List.map_cons, Buddy.freeAll]
  cases s.buddy.free (some t) 0 with
  | none => rfl
  | some r => rfl

theorem freeTables_append (s : MMU) (l l' : List Nat) :
    s.freeTables (l ++ l') = (s.freeTables l).bind (·.freeTables l') := by
  induction l generalizing s with
  | nil => rfl
  | cons t l ih =>
    rw [List.cons_append, freeTables_cons, freeTables_cons, Option.bind_assoc]
    exact Option.bind_congr fun s' _ => ih s'

/-- Giving tables back does not touch the memory. -/
theorem freeTables_entry {l : List Nat} (h : s.freeTables l = some s') : s'.entry = s.entry := by
  obtain ⟨b, -, rfl⟩ := Option.map_eq_some_iff.1 h
  rfl

theorem free_entry (h : s.free t 0 = some s') : s'.entry = s.entry := by
  obtain ⟨r, -, rfl⟩ := Option.map_eq_some_iff.1 h
  rfl

theorem childAt_congr (h : s'.entry = s.entry) : s'.childAt = s.childAt := by
  unfold childAt
  rw [h]

theorem children_congr (h : s'.entry = s.entry) : s'.children = s.children := by
  unfold children
  rw [childAt_congr h]

theorem finalizeLevelTwo_eq (two n ii : Nat) (s : MMU) :
    finalizeLevelTwo two n ii s =
      s.freeTables ((List.range' ii n).filterMap (s.childAt two)) := by
  induction n generalizing s ii with
  | zero => rfl
  | succ n ih =>
    rw [finalizeLevelTwo, List.range'_succ]
    by_cases hv : valid (s.entry two ii)
    · rw [List.filterMap_cons_some (show s.childAt two ii = _ from if_pos hv), freeTables_cons,
        if_pos hv]
      refine Option.bind_congr fun s' hs' => (ih (ii + 1) s').trans ?_
      rw [childAt_congr (free_entry hs')]
    · rw [List.filterMap_cons_none (show s.childAt two ii = _ from if_neg hv), if_neg hv]
      exact ih (ii + 1) s

theorem finalizeRoot_eq (root n i : Nat) (s : MMU) :
    finalizeRoot root n i s = s.freeTables (((List.range' i n).filterMap (s.childAt root)).flatMap
      fun two => s.children two ++ [two]) := by
  induction n generalizing s i with
  | zero => rfl
  | succ n ih =>
    rw [finalizeRoot, List.range'_succ]
    by_cases hv : valid (s.entry root i)
    · rw [List.filterMap_cons_some (show s.childAt root i = _ from if_pos hv), List.flatMap_cons,
        freeTables_append, freeTables_append, if_pos hv]
      simp only [Option.bind_eq_bind, finalizeLevelTwo_eq, Option.bind_assoc]
      rw [show pageSize / sizeofWord = entryNum by decide, ← List.range_eq_range']
      refine Option.bind_congr fun s₁ hs₁ => ?_
      rw [freeTables_cons, Option.bind_assoc]
      refine Option.bind_congr fun s₂ hs₂ => ?_
      have he : s₂.entry = s.entry := (free_entry hs₂).trans (freeTables_entry hs₁)
      rw [freeTables_nil, Option.bind_some, ih, childAt_congr he, children_congr he]
    · rw [List.filterMap_cons_none (show s.childAt root i = _ from if_neg hv), if_neg hv]
      exact ih (i + 1) s

/-- `MMUFinalize` gives back the tables below the root, and the root. -/
theorem MMUFinalize_eq (h : s.rootTablePointer = some root) :
    s.MMUFinalize = s.freeTables (s.subtables root ++ [root]) := by
  unfold MMUFinalize
  rw [h, Option.bind_eq_bind, Option.bind_some, finalizeRoot_eq, freeTables_append,
    show pageSize / sizeofWord = entryNum by decide, ← List.range_eq_range']
  refine Option.bind_congr fun s' _ => ?_
  rw [freeTables_cons]
  cases s'.free root 0 with
  | none => rfl
  | some s'' => rfl

/-! ## The tables of a tree -/

namespace Rep

theorem childAt_eq {e : Option Nat} (h : Rep s addr tables extra e) (ha : addr k p = some a)
    (hk : k < 2) {j : Nat} (hj : j < entryNum) :
    s.childAt a j = addr (k + 1) (p * entryNum + j) := by
  unfold childAt
  cases h.child ha hk hj with
  | inl hn => rw [if_neg hn.1, hn.2]
  | inr hc =>
    obtain ⟨c, hv, hal, hc⟩ := hc
    rw [if_pos hv, hal, hc]

theorem children_eq {e : Option Nat} (h : Rep s addr tables extra e) (ha : addr k p = some a)
    (hk : k < 2) :
    s.children a = (List.range entryNum).filterMap fun j => addr (k + 1) (p * entryNum + j) :=
  List.filterMap_congr fun _ hj => h.childAt_eq ha hk (List.mem_range.1 hj)

theorem mem_children {e : Option Nat} (h : Rep s addr tables extra e) (ha : addr k p = some a)
    (hk : k < 2) : t ∈ s.children a ↔ ∃ q, addr (k + 1) q = some t ∧ q / entryNum = p := by
  rw [h.children_eq ha hk, List.mem_filterMap]
  constructor
  · intro hj
    obtain ⟨j, hj, hc⟩ := hj
    exact ⟨_, hc, div_add (List.mem_range.1 hj)⟩
  · intro hq
    obtain ⟨q, hq, rfl⟩ := hq
    refine ⟨q % entryNum, List.mem_range.2 (Nat.mod_lt q (by decide)), ?_⟩
    rw [Nat.div_add_mod', hq]

theorem nodup_children {e : Option Nat} (h : Rep s addr tables extra e) (ha : addr k p = some a)
    (hk : k < 2) : (s.children a).Nodup := by
  rw [h.children_eq ha hk]
  refine List.nodup_range.filterMap fun j j' b hj hj' => ?_
  exact Nat.add_left_cancel (h.tree.inj hj hj').2

/-- The tables of the second level hang off the root, those of the third off them. -/
theorem mem_subtables {e : Option Nat} (h : Rep s addr tables extra e)
    (hr : s.rootTablePointer = some root) :
    t ∈ s.subtables root ↔ ∃ k p, addr (k + 1) p = some t := by
  have ha : addr 0 0 = some root := h.root.trans hr
  unfold subtables
  rw [List.mem_flatMap]
  constructor
  · intro ht
    obtain ⟨two, h2, ht⟩ := ht
    obtain ⟨p, hp, -⟩ := (h.mem_children ha (by decide)).1 h2
    rcases List.mem_append.1 ht with ht | ht
    · obtain ⟨q, hq, -⟩ := (h.mem_children hp (by decide)).1 ht
      exact ⟨1, q, hq⟩
    · exact ⟨0, p, List.mem_singleton.1 ht ▸ hp⟩
  · intro hp
    obtain ⟨k, p, hp⟩ := hp
    have hne : addr (k + 1) p ≠ none := hp ▸ Option.some_ne_none t
    have hk := h.tree.depth hne
    -- a table of the first level hangs off the root
    have hroot : ∀ {q}, addr 1 q ≠ none → q / entryNum = 0 := fun hq =>
      h.tree.root (h.tree.parent hq)
    match k, hk with
    | 0, _ =>
      exact ⟨t, (h.mem_children ha (by decide)).2 ⟨p, hp, hroot hne⟩,
        List.mem_append_right _ (.head _)⟩
    | 1, _ =>
      obtain ⟨two, h2⟩ := Option.ne_none_iff_exists'.1 (h.tree.parent hne)
      refine ⟨two, (h.mem_children ha (by decide)).2 ⟨_, h2, hroot ?_⟩,
        List.mem_append_left _ ((h.mem_children h2 (by decide)).2 ⟨p, hp, rfl⟩)⟩
      exact h2 ▸ Option.some_ne_none two

theorem nodup_subtables {e : Option Nat} (h : Rep s addr tables extra e)
    (hr : s.rootTablePointer = some root) : (s.subtables root).Nodup := by
  have ha : addr 0 0 = some root := h.root.trans hr
  have htwo : ∀ {two}, two ∈ s.children root → ∃ p, addr 1 p = some two := fun h2 => by
    obtain ⟨p, hp, -⟩ := (h.mem_children ha (by decide)).1 h2
    exact ⟨p, hp⟩
  unfold subtables
  refine List.nodup_flatMap.2 ⟨fun two h2 => ?_, ?_⟩
  · obtain ⟨p, hp⟩ := htwo h2
    refine List.nodup_append.2 ⟨h.nodup_children hp (by decide), List.nodup_singleton two, ?_⟩
    intro t ht t' ht' he
    obtain ⟨q, hq, -⟩ := (h.mem_children hp (by decide)).1 ht
    rw [he, List.mem_singleton.1 ht'] at hq
    exact absurd (h.tree.inj hq hp).1 (by decide)
  · refine (h.nodup_children ha (by decide)).imp_of_mem fun {two two'} h2 h2' hne => ?_
    obtain ⟨p, hp⟩ := htwo h2
    obtain ⟨p', hp'⟩ := htwo h2'
    intro t ht ht'
    rcases List.mem_append.1 ht with ht | ht
    · obtain ⟨q, hq, hqp⟩ := (h.mem_children hp (by decide)).1 ht
      rcases List.mem_append.1 ht' with ht' | ht'
      · obtain ⟨q', hq', hqp'⟩ := (h.mem_children hp' (by decide)).1 ht'
        obtain ⟨-, rfl⟩ := h.tree.inj hq hq'
        rw [← hqp, hqp', hp', Option.some.injEq] at hp
        exact hne hp.symm
      · rw [List.mem_singleton.1 ht'] at hq
        exact absurd (h.tree.inj hq hp').1 (by decide)
    · rw [List.mem_singleton.1 ht] at ht'
      rcases List.mem_append.1 ht' with ht' | ht'
      · obtain ⟨q', hq', -⟩ := (h.mem_children hp' (by decide)).1 ht'
        exact absurd (h.tree.inj hq' hp).1 (by decide)
      · exact hne (List.mem_singleton.1 ht')

/-- The tables of the tree, as the walk over the entries finds them. -/
theorem tables_perm {e : Option Nat} (h : Rep s addr tables extra e)
    (hr : s.rootTablePointer = some root) : tables.Perm (s.subtables root ++ [root]) := by
  have ha : addr 0 0 = some root := h.root.trans hr
  have hnot : root ∉ s.subtables root := fun hm => by
    obtain ⟨k, p, hp⟩ := (h.mem_subtables hr).1 hm
    exact absurd (h.tree.inj hp ha).1 (Nat.succ_ne_zero k)
  refine (List.perm_ext_iff_of_nodup h.owned.nodup ?_).2 fun t => ?_
  · refine List.nodup_append.2 ⟨h.nodup_subtables hr, List.nodup_singleton root, ?_⟩
    intro t ht t' ht' he
    rw [he, List.mem_singleton.1 ht'] at ht
    exact hnot ht
  · rw [h.owned.mem, List.mem_append, h.mem_subtables hr, List.mem_singleton]
    constructor
    · intro ht
      obtain ⟨k, p, hp⟩ := ht
      cases k with
      | zero =>
        obtain rfl := h.tree.root (hp ▸ Option.some_ne_none t)
        rw [ha, Option.some.injEq] at hp
        exact .inr hp.symm
      | succ k => exact .inl ⟨k, p, hp⟩
    · intro ht
      cases ht with
      | inl ht =>
        obtain ⟨k, p, hp⟩ := ht
        exact ⟨k + 1, p, hp⟩
      | inr ht => exact ⟨0, 0, ht ▸ ha⟩

end Rep

end MMU

/-- The call is one of the kernel's, not of another user of the buddy allocator. -/
def PageCall.Own : PageCall → Prop
  | .take _ | .give _ _ => False
  | _ => True

namespace PageClient

open MMU Buddy

variable {s t : PageClient} {mmu : MMU} {ld : Linker} {calls : List PageCall} {call : PageCall}

/-- Mapping and unmapping leaves the blocks of the others alone. -/
theorem others_step (hown : call.Own) (hs : s.step call = some t) : t.others = s.others := by
  cases call with
  | map vaddr bits =>
    obtain ⟨mmu, -, rfl⟩ := Option.map_eq_some_iff.1 hs
    rfl
  | pmap start end_ bits =>
    obtain ⟨mmu, -, rfl⟩ := Option.map_eq_some_iff.1 hs
    rfl
  | punmap start end_ =>
    obtain ⟨mmu, -, rfl⟩ := Option.map_eq_some_iff.1 hs
    rfl
  | invalid vaddr =>
    obtain ⟨mmu, -, rfl⟩ := Option.map_eq_some_iff.1 hs
    rfl
  | take order => exact hown.elim
  | give addr order => exact hown.elim

theorem others_run (hown : ∀ call ∈ calls, call.Own) (hrun : Run Ok step s calls t) :
    t.others = s.others := by
  induction hrun with
  | nil => rfl
  | cons _ hs _ ih =>
    exact (ih fun call hc => hown call (.tail _ hc)).trans (others_step (hown _ (.head _)) hs)

/-- **No table leaks.** After any run of calls the tables that the valid entries point to are pairwise
different, each of them has an entry, and they are what the buddy allocator has handed out besides
the blocks of others. `MMUFinalize` gives each of them back once; what is left are the blocks of the
others, and if these are those from before `MMUInit`, so are the free blocks. -/
theorem tables_owned (huse : mmu.buddy.InUse s.others)
    (hroot : mmu.allocRoot.map (·.sectionMap ld) = some s.mmu) (hrun : Run Ok step s calls t) :
    ∃ root, t.mmu.rootTablePointer = some root ∧ (t.mmu.subtables root ++ [root]).Nodup ∧
      (∀ table ∈ t.mmu.subtables root, t.mmu.occupied table) ∧
      Buddy.Inv t.mmu.buddy ((t.mmu.subtables root ++ [root]).map (·, 0) ++ t.others) ∧
      ∃ mmu', t.mmu.MMUFinalize = some mmu' ∧
        t.mmu.buddy.freeAll ((t.mmu.subtables root ++ [root]).map (·, 0)) = some mmu'.buddy ∧
        Buddy.Inv mmu'.buddy t.others ∧
        ((∀ call ∈ calls, call.Own) → t.others = s.others ∧
          mmu'.buddy.bitmap = mmu.buddy.bitmap ∧
          ∀ L L', FreeLists mmu.buddy L → FreeLists mmu'.buddy L' → ∀ k ≤ 12, (L' k).Perm (L k)) := by
  obtain ⟨hb, hstart⟩ := huse.inv
  obtain ⟨h, hg, -⟩ := allocRoot_inv hb hstart hroot
  obtain ⟨⟨hr, addr, tables, hrep⟩, hsame⟩ := run_inv h hrun
  obtain ⟨root, hr⟩ := Option.ne_none_iff_exists'.1 hr
  have hperm := hrep.tables_perm hr
  have hbuddy := hrep.buddy.perm ((hperm.map (·, 0)).append_right t.others)
  obtain ⟨b, hf, hg', hinv⟩ := hbuddy.freeAll
  refine ⟨root, hr, hperm.nodup_iff.1 hrep.owned.nodup, fun table ht => ?_, hbuddy,
    { t.mmu with buddy := b }, ?_, hf, hinv, fun hown => ?_⟩
  · obtain ⟨k, p, hp⟩ := (hrep.mem_subtables hr).1 ht
    exact hrep.busy k p table hp (Option.some_ne_none table).symm
  · rw [MMUFinalize_eq hr, freeTables, hf, Option.map_some]
  · have hothers := others_run hown hrun
    have hgeom := (hg.trans hsame.geom).trans hg'
    rw [hothers] at hinv
    exact ⟨hothers, hb.canonical hinv hgeom (.refl _)⟩

theorem tables_owned_heap128 : ∃ mmu : MMU, ∃ s t, mmu.buddy.InUse s.others ∧
    mmu.allocRoot.map (·.sectionMap linker128) = some s.mmu ∧
    Run Ok step s [.map 0x8000b000 0x1e, .map 0x8020b000 0x1e, .punmap 0x8000b000 0x8000c000] t ∧
    ∃ root mmu', t.mmu.rootTablePointer = some root ∧
      (t.mmu.subtables root ++ [root]).Nodup ∧ t.mmu.MMUFinalize = some mmu' ∧
      Buddy.Inv mmu'.buddy t.others := by
  have h : ((Buddy.buddyInit heap128 12 heap128.startAddr 4096).bind fun r =>
      ((unset r.1).allocRoot.map (·.sectionMap linker128)).bind fun mmu =>
        (step ⟨mmu, []⟩ (.map 0x8000b000 0x1e)).bind fun s =>
          s.step (.map 0x8020b000 0x1e)).isSome = true := by
    decide +kernel
  obtain ⟨s₂, h⟩ := Option.isSome_iff_exists.1 h
  obtain ⟨⟨b, heap'⟩, hb, h⟩ := Option.bind_eq_some_iff.1 h
  obtain ⟨mmu, hmmu, h⟩ := Option.bind_eq_some_iff.1 h
  obtain ⟨s₁, h₁, h₂⟩ := Option.bind_eq_some_iff.1 h
  have huse : (unset b).buddy.InUse [] := ⟨_, _, _, _, b, [], hb, .nil⟩
  have hinv : (⟨mmu, []⟩ : PageClient).Inv := (Started.inv ⟨_, _, huse, hmmu⟩).1
  have hok₁ : Ok ⟨mmu, []⟩ (.map 0x8000b000 0x1e) := (by decide : 0x8000b000 < 2 ^ 39)
  have hok₂ : s₁.Ok (.map 0x8020b000 0x1e) := (by decide : 0x8020b000 < 2 ^ 39)
  have hok₃ : s₂.Ok (.punmap 0x8000b000 0x8000c000) := ⟨by decide, by decide⟩
  -- unmapping takes no page from the buddy allocator
  rcases ((hinv.step hok₁ h₁).1.step hok₂ h₂).1.returns hok₃ with ⟨hshort, -⟩ | ⟨t, h₃, -⟩
  · exact hshort.elim
  have hrun := Run.cons hok₁ h₁ (.cons hok₂ h₂ (.cons hok₃ h₃ .nil))
  obtain ⟨root, hr, hnd, -, -, mmu', hfin, -, hinv', -⟩ := tables_owned huse hmmu hrun
  exact ⟨unset b, ⟨mmu, []⟩, t, huse, hmmu, hrun, root, mmu', hr, hnd, hfin, hinv'⟩

end PageClient

end SlabKernel
