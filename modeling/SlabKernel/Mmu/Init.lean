import SlabKernel.Mmu.Runs

/-!
# `MMUInit`

Whatever the linker's addresses, the table that `MMUInit` leaves is well formed (`MMUInit_inv`). If
the sections lie below `2 ^ 39`, it is the table after a run of eight calls of `pmap`
(`MMUInit_run`), and a buddy allocator that supplies two pages for each section and two for each 2 MiB
boundary in one is enough for them (`MMUInit_returns`).
-/

namespace SlabKernel

open EntryBits Runs

namespace MMU

variable {s s' : MMU} {extra live : List (Nat × Nat)} {bits start end_ m : Nat} {ld : Linker}

/-! ## Any addresses -/

theorem Inv.pmapLoop_keeps {n i : Nat} (h : s.Inv extra)
    (hs : MMU.pmapLoop start bits n i s = some s') : s'.Inv extra ∧ Same s s' := by
  induction n generalizing s i with
  | zero =>
    obtain rfl := Option.some.inj hs
    exact ⟨h, .rfl⟩
  | succ n ih =>
    unfold MMU.pmapLoop at hs
    rcases h.map ((start + i * pageSize) % 2 ^ 64) bits with
      ⟨-, hn⟩ | ⟨s₁, he, -, h₁, hsame, -⟩
    · rw [hn] at hs
      cases hs
    · rw [he] at hs
      obtain ⟨h', hsame'⟩ := ih h₁ hs
      exact ⟨h', hsame.trans hsame'⟩

theorem Inv.pmap_keeps (h : s.Inv extra) (hs : s.pmap start end_ bits = some s') :
    s'.Inv extra ∧ Same s s' :=
  h.pmapLoop_keeps hs

/-- The sections that `MMUInit` maps after the root is made, with their bits. -/
def initRanges (ld : Linker) (b : Buddy) : List (Nat × Nat × Nat) :=
  [(ld.USER_CODE_START, ld.USER_CODE_END, UserReadWriteExecute),
    (ld.UDATA_BEGIN, ld.UDATA_END, UserReadWriteExecute),
    (b.kernelStartAddr, sub64 b.kernelEndAddr 1, ReadWriteExecute),
    (ld.KCODE_BEGIN, ld.KCODE_END, ReadWriteExecute),
    (ld.KDATA_BEGIN, ld.KDATA_END, ReadWriteExecute),
    (0x10000000, 0x10000100, ReadWrite), (0x0c000000, 0x0c002001, ReadWrite),
    (0x0c200000, 0x0c208001, ReadWrite)]

/-- `pmap` of a list of sections. -/
def pmapAll (s : MMU) (l : List (Nat × Nat × Nat)) : Option MMU :=
  l.foldlM (fun s r => s.pmap r.1 r.2.1 r.2.2) s

theorem Inv.pmapAll_keeps {l : List (Nat × Nat × Nat)} (h : s.Inv extra)
    (hs : s.pmapAll l = some s') : s'.Inv extra ∧ Same s s' := by
  induction l generalizing s with
  | nil =>
    obtain rfl := Option.some.inj hs
    exact ⟨h, .rfl⟩
  | cons r l ih =>
    unfold pmapAll at hs
    rw [List.foldlM_cons] at hs
    obtain ⟨s₁, h₁, hs⟩ := Option.bind_eq_some_iff.1 hs
    obtain ⟨hinv, hsame⟩ := h.pmap_keeps h₁
    obtain ⟨hinv', hsame'⟩ := ih hinv hs
    exact ⟨hinv', hsame.trans hsame'⟩

/-- `MMUInit` makes the root and maps the sections. -/
theorem MMUInit_eq (hb : Buddy.Inv s.buddy live) (hstart : blockSize ∣ s.buddy.kernelStartAddr) :
    s.MMUInit ld =
      (s.allocRoot.map (·.sectionMap ld)).bind (·.pmapAll (initRanges ld s.buddy)) := by
  unfold MMUInit
  cases hroot : s.allocRoot with
  | none => simp -implicitDefEqProofs only [Option.bind_eq_bind, Option.bind_none, Option.map_none]
  | some s₁ =>
    obtain ⟨h₁, hg₁, -⟩ := allocRoot_inv hb hstart (by rw [hroot, Option.map_some])
    simp -implicitDefEqProofs only [Option.bind_eq_bind, Option.bind_some, Option.map_some,
      pmapAll, initRanges, List.foldlM_cons, List.foldlM_nil]
    refine Option.bind_congr fun s₂ hs₂ => ?_
    obtain ⟨h₂, hsame₂⟩ := h₁.pmap_keeps hs₂
    refine Option.bind_congr fun s₃ hs₃ => ?_
    obtain ⟨h₃, hsame₃⟩ := h₂.pmap_keeps hs₃
    have hg := hg₁.trans (hsame₂.trans hsame₃).geom
    rw [hg.start, hg.finish]
    refine Option.bind_congr fun s₄ hs₄ => Option.bind_congr fun s₅ hs₅ => ?_
    obtain ⟨h₄, hsame₄⟩ := h₃.pmap_keeps hs₄
    obtain ⟨h₅, hsame₅⟩ := h₄.pmap_keeps hs₅
    rw [(hsame₂.trans (hsame₃.trans (hsame₄.trans hsame₅))).sections]
    refine Option.bind_congr fun s₆ _ => Option.bind_congr fun s₇ _ =>
      Option.bind_congr fun s₈ _ => ?_
    exact (Option.bind_fun_some _).symm

/-- The table that `MMUInit` leaves. -/
theorem MMUInit_inv (hb : Buddy.Inv s.buddy live) (hstart : blockSize ∣ s.buddy.kernelStartAddr)
    (h : s.MMUInit ld = some s') :
    s'.Inv live ∧ Buddy.SameGeom s.buddy s'.buddy ∧ s'.sections = (s.sectionMap ld).sections := by
  rw [MMUInit_eq hb hstart] at h
  obtain ⟨s₁, h₁, h⟩ := Option.bind_eq_some_iff.1 h
  obtain ⟨hinv, hg, -⟩ := allocRoot_inv hb hstart h₁
  obtain ⟨hinv', hsame⟩ := hinv.pmapAll_keeps h
  obtain ⟨s₀, -, rfl⟩ := Option.map_eq_some_iff.1 h₁
  exact ⟨hinv', hg.trans hsame.geom, hsame.sections⟩

/-! ## Addresses below `2 ^ 39` -/

/-- The sections are ranges below `2 ^ 39`. -/
def Fits (l : List (Nat × Nat × Nat)) : Prop := ∀ r ∈ l, r.1 ≤ r.2.1 ∧ r.2.1 < 2 ^ 39

instance (l : List (Nat × Nat × Nat)) : Decidable (Fits l) :=
  inferInstanceAs (Decidable (∀ r ∈ l, _))

/-- The calls that map sections. -/
def pmapCalls (l : List (Nat × Nat × Nat)) : List PageCall :=
  l.map fun r => .pmap r.1 r.2.1 r.2.2

theorem pmapAll_run {l : List (Nat × Nat × Nat)} (hfit : Fits l) (h : s.pmapAll l = some s') :
    Run PageClient.Ok PageClient.step ⟨s, live⟩ (pmapCalls l) ⟨s', live⟩ := by
  induction l generalizing s with
  | nil =>
    obtain rfl := Option.some.inj h
    exact .nil
  | cons r l ih =>
    unfold pmapAll at h
    rw [List.foldlM_cons] at h
    obtain ⟨s₁, h₁, h⟩ := Option.bind_eq_some_iff.1 h
    refine .cons (hfit r (.head _)) ?_ (ih (fun r' hr => hfit r' (.tail _ hr)) h)
    simp only [PageClient.step, h₁, Option.map_some]

/-- The table after `MMUInit` is one of those of a run. -/
theorem MMUInit_run (huse : s.buddy.InUse live) (hfit : Fits (initRanges ld s.buddy))
    (h : s.MMUInit ld = some s') :
    ∃ s₁, s.allocRoot.map (·.sectionMap ld) = some s₁ ∧ PageClient.Started ⟨s₁, live⟩ ∧
      Run PageClient.Ok PageClient.step ⟨s₁, live⟩ (pmapCalls (initRanges ld s.buddy))
        ⟨s', live⟩ := by
  obtain ⟨hb, hstart⟩ := huse.inv
  rw [MMUInit_eq hb hstart] at h
  obtain ⟨s₁, h₁, h⟩ := Option.bind_eq_some_iff.1 h
  exact ⟨s₁, h₁, ⟨s, ld, huse, h₁⟩, pmapAll_run hfit h⟩

/-! ## Enough memory -/

theorem missing_le (s : MMU) (vaddr : Nat) : s.missing vaddr ≤ 2 := by
  unfold missing
  cases s.rootTablePointer with
  | none => exact Nat.zero_le 2
  | some root =>
    rw [Option.elim_some]
    split
    · exact Nat.le_refl 2
    · split
      · exact Nat.le_succ 1
      · exact Nat.zero_le 2

/-- Two tables for each 2 MiB boundary in a range, and those of its first page, are enough. -/
theorem Inv.pmapLoop_supplied {first n i : Nat} (h : s.Inv extra) (hf : first + i + n < 2 ^ 27)
    (hs : s.buddy.Supplies (s.missing ((first + i) * pageSize) +
      (2 * ((first + i + n) / entryNum - (first + i) / entryNum) + m))) :
    ∃ s', MMU.pmapLoop (first * pageSize) bits (n + 1) i s = some s' ∧ s'.buddy.Supplies m := by
  induction n generalizing s i with
  | zero =>
    rcases h.map ((first + i) * pageSize) bits with ⟨hn, -⟩ | ⟨s₁, he, -, h₁, -, -, hafter, -⟩
    · exact absurd (hs.mono (Nat.le_add_right _ _)) hn
    · refine ⟨s₁, ?_, ?_⟩
      · rw [pmapLoop_succ (by omega), he]
        rfl
      · rw [hafter]
        exact (Buddy.supplies_add.1 hs).2.mono (Nat.le_add_left _ _)
  | succ n ih =>
    rcases h.map ((first + i) * pageSize) bits with
      ⟨hn, -⟩ | ⟨s₁, he, -, h₁, -, -, hafter, hmiss⟩
    · exact absurd (hs.mono (Nat.le_add_right _ _)) hn
    · rw [pmapLoop_succ (by omega), he, Option.bind_some]
      apply ih h₁ (by omega)
      rw [hafter]
      apply (Buddy.supplies_add.1 hs).2.mono
      -- the next page hangs off the same last table, or is the first of the next one
      by_cases hsame : (first + (i + 1)) / entryNum = (first + i) / entryNum
      · rw [hmiss _ (by rw [slot_page (by omega), slot_page (by omega), hsame]), hsame]
        exact Nat.le_of_eq (by rw [Nat.zero_add, show first + (i + 1) + n = first + i + (n + 1) by omega])
      · have := missing_le s₁ ((first + (i + 1)) * pageSize)
        unfold entryNum at hsame ⊢
        omega

theorem Inv.pmap_supplied (h : s.Inv extra) (hle : start ≤ end_) (hlt : end_ < 2 ^ 39)
    (hs : s.buddy.Supplies (2 + (2 * (end_ / 2 ^ 21 - start / 2 ^ 21) + m))) :
    ∃ s', s.pmap start end_ bits = some s' ∧ s'.buddy.Supplies m := by
  obtain ⟨hnum, hdiv, hend⟩ := pageNum_eq hle hlt
  unfold MMU.pmap
  simp only [hnum]
  refine h.pmapLoop_supplied (i := 0) (by omega) (hs.mono ?_)
  have := missing_le s ((start / pageSize + 0) * pageSize)
  have hblock : ∀ x, x / pageSize / entryNum = x / 2 ^ 21 := fun x => Nat.div_div_eq_div_mul x _ _
  rw [Nat.add_zero, Nat.add_sub_cancel' hdiv, hblock, hblock]
  rw [Nat.add_zero] at this
  omega

/-- The pages that mapping the sections may take. -/
def pagesFor (l : List (Nat × Nat × Nat)) : Nat :=
  (l.map fun r => 2 + 2 * (r.2.1 / 2 ^ 21 - r.1 / 2 ^ 21)).sum

theorem Inv.pmapAll_supplied {l : List (Nat × Nat × Nat)} (h : s.Inv extra) (hfit : Fits l)
    (hs : s.buddy.Supplies (pagesFor l + m)) :
    ∃ s', s.pmapAll l = some s' ∧ s'.buddy.Supplies m := by
  induction l generalizing s with
  | nil => exact ⟨s, rfl, hs.mono (Nat.le_add_left _ _)⟩
  | cons r l ih =>
    obtain ⟨hle, hlt⟩ := hfit r (.head _)
    unfold pagesFor at hs
    rw [List.map_cons, List.sum_cons, Nat.add_assoc, Nat.add_assoc] at hs
    obtain ⟨s₁, h₁, hs₁⟩ := h.pmap_supplied hle hlt hs
    obtain ⟨s', h', hs'⟩ := ih (h.pmap_keeps h₁).1 (fun r' hr => hfit r' (.tail _ hr)) hs₁
    refine ⟨s', ?_, hs'⟩
    unfold pmapAll
    rw [List.foldlM_cons, h₁]
    exact h'

/-- With enough pages `MMUInit` returns, and the pages that it may take are all that it takes. -/
theorem MMUInit_returns (hb : Buddy.Inv s.buddy live) (hstart : blockSize ∣ s.buddy.kernelStartAddr)
    (hfit : Fits (initRanges ld s.buddy))
    (hs : s.buddy.Supplies (1 + (pagesFor (initRanges ld s.buddy) + m))) :
    ∃ s', s.MMUInit ld = some s' ∧ s'.buddy.Supplies m := by
  rw [MMUInit_eq hb hstart]
  obtain ⟨hone, hrest⟩ := Buddy.supplies_add.1 hs
  rcases pgalloc_spec hb hstart with ⟨hn, -⟩ | ⟨t, s₁, he, -, hbuddy, -⟩
  · exact absurd hn hone.1
  · have hroot : s.allocRoot = some { s₁ with rootTablePointer := some t } := by
      unfold allocRoot
      rw [he]
      rfl
    obtain ⟨hinv, -, -⟩ := allocRoot_inv hb hstart (by rw [hroot, Option.map_some])
    rw [hroot, Option.map_some, Option.bind_some]
    apply hinv.pmapAll_supplied hfit
    change s₁.buddy.Supplies _
    rw [hbuddy]
    exact hrest

end MMU

end SlabKernel
