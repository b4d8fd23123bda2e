import SlabKernel.Mmu.FlatMap

/-!
# `map` without memory

`map` does not look at what `pgalloc` returns. In every state of a run it leaves the page table as it
was at a shortage iff there is none, that is iff the buddy allocator supplies each table that is
missing on the way to the page (`map_survives_iff`); else it stores through a null pointer, with the
upper entry of a new table already written when the second allocation is the one that fails
(`map_survives_fails`).
-/

namespace SlabKernel

open Buddy EntryBits Runs

namespace PageClient

open MMU

variable {s t : PageClient} {calls : List PageCall} {vaddr bits : Nat}

/-- `map` returns, and it has left every translation alone if a table that it needed was not to be
had. -/
def SurvivesMap (s : PageClient) (vaddr bits : Nat) : Prop :=
  ∃ mmu, s.mmu.map vaddr bits = some mmu ∧
    (¬ s.mmu.buddy.Supplies (s.mmu.missing vaddr) →
      ∀ w, mmu.translation w = s.mmu.translation w)

/-- **Mapping under exhaustion.** In every state of a run `map` survives iff the buddy allocator
supplies the tables that are missing. Then every valid entry above the last level still points to a
live table, and the page of the address is the only one whose translation changes. -/
theorem map_survives_iff (hstart : s.Started) (hrun : Run Ok step s calls t) :
    (t.SurvivesMap vaddr bits ↔ t.mmu.buddy.Supplies (t.mmu.missing vaddr)) ∧
    ∀ mmu, t.mmu.map vaddr bits = some mmu → mmu.Inv t.others ∧
      ∀ w, mmu.translation w =
        if slot w = slot vaddr then some (pgDesc vaddr bits) else t.mmu.translation w := by
  obtain ⟨h, -⟩ := hstart.inv
  unfold SurvivesMap
  cases (run_inv h hrun).1.map vaddr bits with
  | inl hn =>
    obtain ⟨hs, he⟩ := hn
    simp only [he]
    exact ⟨iff_of_false (fun hc => by obtain ⟨_, hc, -⟩ := hc; cases hc) hs, nofun⟩
  | inr hr =>
    obtain ⟨mmu, he, hs, hinv, -, hwalk, -⟩ := hr
    refine ⟨iff_of_true ⟨mmu, he, fun hn => absurd hs hn⟩ hs, fun mmu' he' => ?_⟩
    rw [he, Option.some.injEq] at he'
    subst he'
    refine ⟨hinv, fun w => ?_⟩
    unfold translation
    rw [hwalk]
    split
    · exact if_pos (valid_pgDesc vaddr bits)
    · rfl

theorem map_survives_iff_heap128 : ∃ s t, s.Started ∧ Run Ok step s [.take 11] t ∧
    (t.SurvivesMap 0x8000b000 ReadWrite ↔
      t.mmu.buddy.Supplies (t.mmu.missing 0x8000b000)) := by
  have h : (start128.bind fun s => [PageCall.take 11].foldlM step s).isSome = true := by
    decide +kernel
  obtain ⟨t, ht⟩ := Option.isSome_iff_exists.1 h
  obtain ⟨s, hs, ht⟩ := Option.bind_eq_some_iff.1 ht
  have hrun : Run Ok step s _ t := .of_foldlM (fun call hcall s => by
    obtain rfl := List.mem_singleton.1 hcall
    exact trivial) ht
  exact ⟨s, t, start128_started hs, hrun, (map_survives_iff (start128_started hs) hrun).1⟩

/-- With every page taken the first allocation of `map` fails, and with all but one the second. -/
theorem map_survives_fails : ∃ s t u, s.Started ∧
    Run Ok step s ([11, 10, 9, 8, 7, 6, 5, 4, 3, 2, 1, 0].map .take) t ∧
    Run Ok step s ([11, 10, 9, 8, 7, 6, 5, 4, 3, 2, 1].map .take) u ∧
    ¬ t.SurvivesMap 0x8000b000 ReadWrite ∧ ¬ u.SurvivesMap 0x8000b000 ReadWrite := by
  have h : (start128.bind fun s =>
      (([11, 10, 9, 8, 7, 6, 5, 4, 3, 2, 1, 0].map .take).foldlM step s).bind fun t =>
      (([11, 10, 9, 8, 7, 6, 5, 4, 3, 2, 1].map .take).foldlM step s).bind fun u =>
        if (t.mmu.map 0x8000b000 ReadWrite).isNone ∧ (u.mmu.map 0x8000b000 ReadWrite).isNone
        then some () else none) = some () := by
    decide +kernel
  obtain ⟨s, hs, h⟩ := Option.bind_eq_some_iff.1 h
  obtain ⟨t, ht, h⟩ := Option.bind_eq_some_iff.1 h
  obtain ⟨u, hu, h⟩ := Option.bind_eq_some_iff.1 h
  obtain ⟨⟨hnt, hnu⟩, -⟩ := Option.ite_none_right_eq_some.1 h
  have hok : ∀ (l : List Nat), ∀ call ∈ l.map PageCall.take, ∀ s, Ok s call := by
    intro l call hcall s
    obtain ⟨order, -, rfl⟩ := List.mem_map.1 hcall
    exact trivial
  refine ⟨s, t, u, start128_started hs, .of_foldlM (hok _) ht, .of_foldlM (hok _) hu,
    fun hc => ?_, fun hc => ?_⟩
  · obtain ⟨mmu, he, -⟩ := hc
    rw [Option.isNone_iff_eq_none.1 hnt] at he
    cases he
  · obtain ⟨mmu, he, -⟩ := hc
    rw [Option.isNone_iff_eq_none.1 hnu] at he
    cases he

end PageClient

end SlabKernel
