import SlabKernel.Mmu.Runs

/-!
# The page table as a flat map

A page table is for its users a partial map from page numbers to entries (`FlatMap`), on which each
call is a pointwise update (`FlatMap.apply`). The three levels refine it: after any run, the walk of
every address gives what the flat map has for its page (`refines_flat_map`).
-/

namespace SlabKernel

open Function (update update_self update_of_ne)
open EntryBits Runs

/-- The entries of the pages that are mapped, by page number. -/
abbrev FlatMap := Nat → Option Nat

namespace FlatMap

/-- The entry that maps a page to itself. -/
def identity (page bits : Nat) : Nat := page * pageSize / 2 ^ 2 ||| Valid ||| bits

/-- The pages from `first` to `last` are changed. -/
def setRange (m : FlatMap) (first last : Nat) (f : FlatMap) : FlatMap :=
  fun page => if first ≤ page ∧ page ≤ last then f page else m page

/-- What a call means. -/
def apply (m : FlatMap) : PageCall → FlatMap
  | .map vaddr bits => update m (vaddr / pageSize) (some (identity (vaddr / pageSize) bits))
  | .pmap start end_ bits =>
    m.setRange (start / pageSize) (end_ / pageSize) fun page => some (identity page bits)
  | .punmap start end_ => m.setRange (start / pageSize) (end_ / pageSize) fun _ => none
  | .invalid vaddr => update m (vaddr / pageSize) none
  | .take _ | .give _ _ => m

end FlatMap

namespace MMU

/-- The entry that the walk of an address ends at, if every entry on the way is valid. -/
def translation (s : MMU) (vaddr : Nat) : Option Nat :=
  if valid (s.walk vaddr) then some (s.walk vaddr) else none

/-- The translation of every address is that of its page. -/
def Refines (s : MMU) (m : FlatMap) : Prop :=
  ∀ vaddr < 2 ^ 39, s.translation vaddr = m (vaddr / pageSize)

theorem slot_of_lt {vaddr : Nat} (h : vaddr < 2 ^ 39) : slot vaddr = vaddr / pageSize := by
  unfold slot pageSize
  omega

theorem pgDesc_eq (vaddr bits : Nat) :
    pgDesc vaddr bits = FlatMap.identity (vaddr / pageSize) bits := rfl

end MMU

namespace PageClient

open MMU

variable {s t : PageClient} {m : FlatMap} {call : PageCall} {calls : List PageCall}

/-- One call refines one update. -/
theorem refines_step (h : s.Inv) (hm : s.mmu.Refines m) (hok : s.Ok call)
    (hs : s.step call = some t) : t.mmu.Refines (m.apply call) := by
  obtain ⟨-, -, hwalk⟩ := h.step hok hs
  intro w hw
  have hold := hm w hw
  unfold translation at hold ⊢
  rw [hwalk, slot_of_lt hw]
  cases call with
  | map vaddr bits =>
    unfold entryAfter FlatMap.apply
    simp only [slot_of_lt (show vaddr < 2 ^ 39 from hok)]
    by_cases hp : w / pageSize = vaddr / pageSize
    · rw [if_pos hp, hp, update_self, if_pos (valid_pgDesc vaddr bits)]
      rfl
    · rw [if_neg hp, update_of_ne hp]
      exact hold
  | pmap start end_ bits =>
    unfold entryAfter FlatMap.apply FlatMap.setRange
    simp only
    by_cases hp : start / pageSize ≤ w / pageSize ∧ w / pageSize ≤ end_ / pageSize
    · rw [if_pos hp, if_pos hp, if_pos (valid_pgDesc _ bits), pgDesc_eq,
        Nat.mul_div_cancel _ (by decide)]
    · rw [if_neg hp, if_neg hp]
      exact hold
  | punmap start end_ =>
    unfold entryAfter FlatMap.apply FlatMap.setRange
    simp only
    by_cases hp : start / pageSize ≤ w / pageSize ∧ w / pageSize ≤ end_ / pageSize
    · rw [if_pos hp, if_pos hp, if_neg not_valid_zero]
    · rw [if_neg hp, if_neg hp]
      exact hold
  | invalid vaddr =>
    unfold entryAfter FlatMap.apply
    simp only [slot_of_lt (show vaddr < 2 ^ 39 from hok)]
    by_cases hp : w / pageSize = vaddr / pageSize
    · rw [if_pos hp, hp, update_self, if_neg not_valid_zero]
    · rw [if_neg hp, update_of_ne hp]
      exact hold
  | take order => exact hold
  | give addr order => exact hold

theorem refines_run (h : s.Inv) (hm : s.mmu.Refines m) (hrun : Run Ok step s calls t) :
    t.mmu.Refines (calls.foldl FlatMap.apply m) := by
  induction hrun generalizing m with
  | nil => exact hm
  | cons hok hs _ ih => exact ih (h.step hok hs).1 (refines_step h hm hok hs)

/-- **The flat map.** After any run of calls the walk of the three levels gives for every address
what the calls, read as updates of a flat map, leave for its page. A call that does not return lacks
a page. -/
theorem refines_flat_map (hstart : s.Started) (hrun : Run Ok step s calls t) :
    (∀ vaddr < 2 ^ 39, t.mmu.translation vaddr =
      calls.foldl FlatMap.apply (fun _ => none) (vaddr / pageSize)) ∧
    ∀ call, t.Ok call → t.step call = none → t.Short call := by
  obtain ⟨h, hzero⟩ := hstart.inv
  refine ⟨refines_run h (fun w _ => ?_) hrun, fun call hok hn => ?_⟩
  · unfold translation
    rw [hzero, if_neg not_valid_zero]
  · cases (run_inv h hrun).1.returns hok with
    | inl hs => exact hs.1
    | inr hs =>
      obtain ⟨u, hu, -⟩ := hs
      rw [hn] at hu
      cases hu

theorem refines_flat_map_heap128 : ∃ s t, s.Started ∧
    Run Ok step s [.pmap 0x8000b000 0x8000c100 UserReadWriteExecute, .punmap 0x8000b000 0x8000b000] t ∧
    ∀ vaddr < 2 ^ 39, t.mmu.translation vaddr =
      [.pmap 0x8000b000 0x8000c100 UserReadWriteExecute, .punmap 0x8000b000 0x8000b000].foldl
        FlatMap.apply (fun _ => none) (vaddr / pageSize) := by
  have h : (start128.bind fun s => [.pmap 0x8000b000 0x8000c100 UserReadWriteExecute,
      .punmap 0x8000b000 0x8000b000].foldlM step s).isSome = true := by
    decide +kernel
  obtain ⟨t, ht⟩ := Option.isSome_iff_exists.1 h
  obtain ⟨s, hs, ht⟩ := Option.bind_eq_some_iff.1 ht
  have hrun : Run Ok step s _ t := .of_foldlM (fun call hcall s => by
    rcases List.mem_pair.1 hcall with rfl | rfl <;> exact ⟨by decide, by decide⟩) ht
  exact ⟨s, t, start128_started hs, hrun, (refines_flat_map (start128_started hs) hrun).1⟩

end PageClient

end SlabKernel
