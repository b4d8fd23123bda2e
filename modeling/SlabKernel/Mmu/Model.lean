import SlabKernel.Buddy.Model

/-!
# The page table (`h/mmu.h`, `src/kernel/mmu.cpp`)

The static members of `MMU` are the fields of a record, with the memory of the tables, one word for
each address, and the buddy allocator their pages come from. An operation is `none` where the code
stores through a null table pointer or never returns.
-/

namespace SlabKernel

open Function (update)

/-- `PAGE_SIZE`. -/
abbrev pageSize : Nat := 4096

/-- `sizeof(uint64)`. -/
abbrev sizeofWord : Nat := 8

/-- `PAGE_ALIGN`: the table that an entry points to. -/
def PAGE_ALIGN (e : Nat) : Nat := e / 2 ^ 10 * 2 ^ 12

/-- `vaddr & ~(PAGE_SIZE - 1)`. -/
def pageOf (vaddr : Nat) : Nat := vaddr / pageSize * pageSize

/-! ## `EntryBits` -/

namespace EntryBits

def Valid : Nat := 2 ^ 0
def Read : Nat := 2 ^ 1
def Write : Nat := 2 ^ 2
def Execute : Nat := 2 ^ 3
def User : Nat := 2 ^ 4
def ReadWrite : Nat := Read ||| Write
def ReadWriteExecute : Nat := Read ||| Write ||| Execute
def UserReadWriteExecute : Nat := Read ||| Write ||| Execute ||| User

end EntryBits

open EntryBits

inductive MMU_FLAGS
  | PAGE_FAULT
  | PAGE_UNMAP
  deriving DecidableEq

/-- The addresses that the linker gives to the sections (`h/system.h`). -/
structure Linker where
  USER_CODE_START : Nat
  USER_CODE_END : Nat
  UDATA_BEGIN : Nat
  UDATA_END : Nat
  KCODE_BEGIN : Nat
  KCODE_END : Nat
  KDATA_BEGIN : Nat
  KDATA_END : Nat
  WRAP_START : Nat
  WRAP_END : Nat

/-- The members of `MMU` that `sectionMap` sets. -/
structure Sections where
  kspbegin : Nat
  kspend : Nat
  wrapbegin : Nat
  wrapend : Nat
  user_begin : Nat
  user_end : Nat

/-- The static members of class `MMU`, the memory and the buddy allocator. -/
structure MMU where
  rootTablePointer : Ptr
  sections : Sections
  word : Nat → Nat
  buddy : Buddy

namespace MMU

/-- The members before `MMUInit`, with the memory cleared. -/
def unset (buddy : Buddy) : MMU where
  rootTablePointer := none
  sections := ⟨0, 0, 0, 0, 0, 0⟩
  word _ := 0
  buddy

/-- `table[i]`. -/
def entry (s : MMU) (table i : Nat) : Nat := s.word (table + sizeofWord * i)

/-- `table[i] = e`. -/
def setEntry (s : MMU) (table i e : Nat) : MMU :=
  { s with word := update s.word (table + sizeofWord * i) e }

/-- `e & Valid`. -/
def valid (e : Nat) : Prop := e &&& Valid ≠ 0

instance (e : Nat) : Decidable (valid e) := inferInstanceAs (Decidable (_ ≠ _))

/-- `vpn[level]`. -/
def vpn (vaddr level : Nat) : Nat := vaddr / 2 ^ (12 + 9 * level) % 2 ^ 9

def zeroInit (s : MMU) (addr n : Nat) : MMU :=
  (List.range n).foldl (fun s i => s.setEntry addr i 0) s

def pgalloc (s : MMU) (order : Nat) : Option (Nat × MMU) :=
  match s.buddy.alloc order with
  | (none, _) => none
  | (some table, buddy) => some (table, { s with buddy }.zeroInit table (pageSize / sizeofWord))

/-- `Buddy::free(table, order)`. -/
def free (s : MMU) (table order : Nat) : Option MMU :=
  (s.buddy.free (some table) order).map fun r => { s with buddy := r.2 }

/-- The entry that points to `table`. -/
def tableEntry (table : Nat) : Nat := table / 2 ^ 2 ||| Valid

/-! ## `map` and `pmap` -/

/-- The part of `map` that finds `levelThree`, or makes it. -/
def findLevelThree (s : MMU) (vaddr : Nat) : Option (Nat × MMU) := do
  let root ← s.rootTablePointer
  if ¬ valid (s.entry root (vpn vaddr 2)) then
    let (levelTwo, s) ← s.pgalloc 0
    let s := s.setEntry root (vpn vaddr 2) (tableEntry levelTwo)
    let (levelThree, s) ← s.pgalloc 0
    return (levelThree, s.setEntry levelTwo (vpn vaddr 1) (tableEntry levelThree))
  else
    let levelTwo := PAGE_ALIGN (s.entry root (vpn vaddr 2))
    if ¬ valid (s.entry levelTwo (vpn vaddr 1)) then
      let (levelThree, s) ← s.pgalloc 0
      return (levelThree, s.setEntry levelTwo (vpn vaddr 1) (tableEntry levelThree))
    else return (PAGE_ALIGN (s.entry levelTwo (vpn vaddr 1)), s)

def map (s : MMU) (vaddr bits : Nat) : Option MMU := do
  let vaddr := pageOf vaddr
  let pgDesc := vaddr / 2 ^ 2 ||| Valid ||| bits
  let (levelThree, s) ← s.findLevelThree vaddr
  return s.setEntry levelThree (vpn vaddr 0) pgDesc

/-- The loop of `pmap`, with `n` pages left from the `i`th on. -/
def pmapLoop (start bits : Nat) : Nat → Nat → MMU → Option MMU
  | 0, _, s => some s
  | n + 1, i, s => do
    let s ← s.map ((start + i * pageSize) % 2 ^ 64) bits
    pmapLoop start bits n (i + 1) s

def pmap (s : MMU) (start end_ bits : Nat) : Option MMU :=
  let start := pageOf start
  let end_ := pageOf end_
  let pageNum := sub64 end_ start / pageSize
  pmapLoop start bits (pageNum + 1) 0 s

/-! ## `invalid` and `punmap` -/

/-- A loop over the entries of `table` finds one that is not 0. -/
def occupied (s : MMU) (table : Nat) : Prop := ∃ i < pageSize / sizeofWord, s.entry table i ≠ 0

instance (s : MMU) (table : Nat) : Decidable (s.occupied table) :=
  inferInstanceAs (Decidable (∃ i < _, _))

/-- The part of `invalid` that gives tables without entries back. -/
def unmapTables (s : MMU) (root levelTwo levelThree vaddr : Nat) : Option MMU :=
  if s.occupied levelThree then some s
  else do
    let s := s.setEntry levelTwo (vpn vaddr 1) 0
    let s ← s.free levelThree 0
    if s.occupied levelTwo then return s
    else
      let s := s.setEntry root (vpn vaddr 2) 0
      s.free levelTwo 0

def invalid (s : MMU) (vaddr : Nat) (flags : MMU_FLAGS) : Option MMU := do
  let vaddr := pageOf vaddr
  let root ← s.rootTablePointer
  if ¬ valid (s.entry root (vpn vaddr 2)) then return s
  else
    let levelTwo := PAGE_ALIGN (s.entry root (vpn vaddr 2))
    if ¬ valid (s.entry levelTwo (vpn vaddr 1)) then return s
    else
      let levelThree := PAGE_ALIGN (s.entry levelTwo (vpn vaddr 1))
      let s := s.setEntry levelThree (vpn vaddr 0) 0
      if flags = .PAGE_UNMAP then s.unmapTables root levelTwo levelThree vaddr
      else return s

/-- The loop of `punmap`, with `n` pages left from `start` on. -/
def punmapLoop : Nat → Nat → MMU → Option MMU
  | 0, _, s => some s
  | n + 1, start, s => do
    let s ← s.invalid start .PAGE_UNMAP
    punmapLoop n ((start + pageSize) % 2 ^ 64) s

/-- `punmap`; its counter is an `unsigned`, which never exceeds a `pageNum` of `2 ^ 32` or more. -/
def punmap (s : MMU) (start end_ : Nat) : Option MMU :=
  let start := pageOf start
  let end_ := pageOf end_
  let pageNum := sub64 end_ start / pageSize
  if pageNum ≥ 2 ^ 32 - 1 then none else punmapLoop (pageNum + 1) start s

/-! ## Initialisation and the end -/

/-- `sectionMap`. -/
def sectionMap (s : MMU) (ld : Linker) : MMU :=
  { s with sections := {
      wrapbegin := ld.WRAP_START
      wrapend := ld.WRAP_END
      kspbegin := ld.KDATA_BEGIN
      kspend := ld.KDATA_END
      user_begin := ld.USER_CODE_START
      user_end := ld.USER_CODE_END } }

/-- The statement `rootTablePointer = pgalloc(0)`. -/
def allocRoot (s : MMU) : Option MMU := do
  let (root, s) ← s.pgalloc 0
  return { s with rootTablePointer := some root }

def MMUInit (s : MMU) (ld : Linker) : Option MMU := do
  let s ← s.allocRoot
  let s := s.sectionMap ld
  let s ← s.pmap s.sections.user_begin s.sections.user_end UserReadWriteExecute
  let s ← s.pmap ld.UDATA_BEGIN ld.UDATA_END UserReadWriteExecute
  let s ← s.pmap s.buddy.kernelStartAddr (sub64 s.buddy.kernelEndAddr 1) ReadWriteExecute
  let s ← s.pmap ld.KCODE_BEGIN ld.KCODE_END ReadWriteExecute
  let s ← s.pmap s.sections.kspbegin s.sections.kspend ReadWriteExecute
  let s ← s.pmap 0x10000000 0x10000100 ReadWrite
  let s ← s.pmap 0x0c000000 0x0c002001 ReadWrite
  s.pmap 0x0c200000 0x0c208001 ReadWrite

/-- The inner loop of `MMUFinalize`, with `n` entries of `levelTwo` left from `ii` on. -/
def finalizeLevelTwo (levelTwo : Nat) : Nat → Nat → MMU → Option MMU
  | 0, _, s => some s
  | n + 1, ii, s => do
    let s ← if valid (s.entry levelTwo ii) then s.free (PAGE_ALIGN (s.entry levelTwo ii)) 0 else some s
    finalizeLevelTwo levelTwo n (ii + 1) s

/-- The outer loop of `MMUFinalize`, with `n` entries of the root left from `i` on. -/
def finalizeRoot (pmtp : Nat) : Nat → Nat → MMU → Option MMU
  | 0, _, s => some s
  | n + 1, i, s => do
    let s ← if valid (s.entry pmtp i) then do
        let levelTwo := PAGE_ALIGN (s.entry pmtp i)
        let s ← finalizeLevelTwo levelTwo (pageSize / sizeofWord) 0 s
        s.free levelTwo 0
      else some s
    finalizeRoot pmtp n (i + 1) s

def MMUFinalize (s : MMU) : Option MMU := do
  let pmtp ← s.rootTablePointer
  let s ← finalizeRoot pmtp (pageSize / sizeofWord) 0 s
  s.free pmtp 0

/-! ## Checks -/

def kspace (s : MMU) (vaddr : Nat) : Prop :=
  vaddr ≥ s.buddy.kernelStartAddr ∧ vaddr < s.buddy.kernelEndAddr ∨
    vaddr ≥ s.sections.kspbegin ∧ vaddr < s.sections.kspend

instance (s : MMU) (vaddr : Nat) : Decidable (s.kspace vaddr) :=
  inferInstanceAs (Decidable (_ ∨ _))

def ufetch (s : MMU) (vaddr : Nat) : Prop :=
  vaddr ≥ s.sections.wrapbegin ∧ vaddr < s.sections.wrapend ∨
    vaddr ≥ s.sections.user_begin ∧ vaddr ≤ s.sections.user_end

instance (s : MMU) (vaddr : Nat) : Decidable (s.ufetch vaddr) :=
  inferInstanceAs (Decidable (_ ∨ _))

end MMU

end SlabKernel
