import SlabKernel.Buddy.Teardown
import SlabKernel.Mmu.Ops

/-!
# Runs of the page table

The kernel maps and unmaps pages while others take blocks of the buddy allocator and give them back
(`PageClient`). `Buddy.InUse` is a buddy allocator before `MMUInit`: what a run of calls has left of
it, with the live blocks. The first statements of `MMUInit` make an empty table (`allocRoot_inv`);
every call after it keeps the table's invariant (`PageClient.Inv.step`), and one that does not return
lacks a page (`PageClient.Short`).
-/

namespace SlabKernel

open Function (update update_self update_of_ne)
open Radix EntryBits Runs

/-- The buddy allocator after some calls, with the live blocks `live`. -/
def Buddy.InUse (b : Buddy) (live : List (Nat × Nat)) : Prop :=
  ∃ heap heap' space blockNum b₀ calls, buddyInit heap 12 space blockNum = some (b₀, heap') ∧
    Run Client.Ok Client.step ⟨b₀, []⟩ calls ⟨b, live⟩

theorem Buddy.InUse.inv {b : Buddy} {live : List (Nat × Nat)} (h : b.InUse live) :
    Buddy.Inv b live ∧ blockSize ∣ b.kernelStartAddr := by
  obtain ⟨heap, heap', space, blockNum, b₀, calls, hinit, hrun⟩ := h
  obtain ⟨hg, hinv⟩ := Client.run_inv (.init hinit) hrun
  exact ⟨hinv, hg.start ▸ buddyInit_start hinit⟩

namespace MMU

variable {s s' : MMU} {live : List (Nat × Nat)}

/-- The root is the only table at first, and no page is mapped. -/
theorem allocRoot_inv {ld : Linker} (hb : Buddy.Inv s.buddy live)
    (hstart : blockSize ∣ s.buddy.kernelStartAddr)
    (h : s.allocRoot.map (·.sectionMap ld) = some s') :
    s'.Inv live ∧ Buddy.SameGeom s.buddy s'.buddy ∧ ∀ w, s'.walk w = 0 := by
  unfold MMU.allocRoot at h
  rcases pgalloc_spec hb hstart with
    ⟨-, hn⟩ | ⟨t, s₁, he, -, -, hinv, hg, -, -, -, hz, -⟩
  · rw [hn] at h
    cases h
  · rw [he] at h
    obtain rfl := Option.some.inj h
    have hrep : Rep ({ s₁ with rootTablePointer := some t }.sectionMap ld)
        (place (fun _ _ => none) 0 0 (some t)) [t] live none :=
      ⟨.single 2 hz, place_self _ _ _ _, .single t, hinv, hg.start ▸ hstart, .single t⟩
    have hr : ({ s₁ with rootTablePointer := some t }.sectionMap ld).rootTablePointer ≠ none :=
      Option.some_ne_none t
    refine ⟨⟨hr, _, _, hrep⟩, hg, fun w => ?_⟩
    rw [hrep.walk_eq hr]
    unfold leafOf leaf
    rw [place_of_ne fun hc => absurd hc.1 (by decide), Option.elim_none]

end MMU

/-- The page table and the blocks that others have taken of the buddy allocator. -/
structure PageClient where
  mmu : MMU
  others : List (Nat × Nat)

inductive PageCall
  | map (vaddr bits : Nat)
  | pmap (start end_ bits : Nat)
  | punmap (start end_ : Nat)
  | invalid (vaddr : Nat)
  | take (order : Nat)
  | give (addr order : Nat)

namespace PageClient

open MMU

def step (s : PageClient) : PageCall → Option PageClient
  | .map vaddr bits => (s.mmu.map vaddr bits).map fun mmu => { s with mmu }
  | .pmap start end_ bits => (s.mmu.pmap start end_ bits).map fun mmu => { s with mmu }
  | .punmap start end_ => (s.mmu.punmap start end_).map fun mmu => { s with mmu }
  | .invalid vaddr => (s.mmu.invalid vaddr .PAGE_UNMAP).map fun mmu => { s with mmu }
  | .take order =>
    let r := s.mmu.buddy.alloc order
    some {
      mmu := { s.mmu with buddy := r.2 }
      others := r.1.toList.map (·, order) ++ s.others }
  | .give addr order => (s.mmu.free addr order).map fun mmu =>
    { mmu, others := s.others.erase (addr, order) }

/-- Addresses are below `2 ^ 39`; others give back what they took. -/
def Ok (s : PageClient) : PageCall → Prop
  | .map vaddr _ | .invalid vaddr => vaddr < 2 ^ 39
  | .pmap start end_ _ | .punmap start end_ => start ≤ end_ ∧ end_ < 2 ^ 39
  | .take _ => True
  | .give addr order => (addr, order) ∈ s.others

/-- A call needs a page that the buddy allocator does not have. -/
def Short (s : PageClient) : PageCall → Prop
  | .map vaddr _ => ¬ s.mmu.buddy.Supplies (s.mmu.missing vaddr)
  | .pmap start end_ bits => ∃ k ≤ end_ / pageSize - start / pageSize, ∃ s₁,
    MMU.pmapLoop (pageOf start) bits k 0 s.mmu = some s₁ ∧
      ¬ s₁.buddy.Supplies (s₁.missing (pageOf start + k * pageSize))
  | _ => False

/-- What a call does to the entry of a page. -/
def entryAfter (old : Nat) (page : Nat) : PageCall → Nat
  | .map vaddr bits => if page = slot vaddr then pgDesc vaddr bits else old
  | .pmap start end_ bits =>
    if start / pageSize ≤ page ∧ page ≤ end_ / pageSize then pgDesc (page * pageSize) bits else old
  | .punmap start end_ => if start / pageSize ≤ page ∧ page ≤ end_ / pageSize then 0 else old
  | .invalid vaddr => if page = slot vaddr then 0 else old
  | .take _ | .give _ _ => old

/-- The tables and the blocks of the others are the live blocks of the buddy allocator. -/
abbrev Inv (s : PageClient) : Prop := s.mmu.Inv s.others

variable {s s' : PageClient} {call : PageCall} {calls : List PageCall}

theorem Inv.buddy (h : s.Inv) : ∃ own, Buddy.Inv s.mmu.buddy (own ++ s.others) := by
  obtain ⟨-, _, tables, hrep⟩ := h
  exact ⟨_, hrep.buddy⟩

/-- The memory of the tables is not that of the others. -/
theorem Inv.withBuddy {b : Buddy} {live : List (Nat × Nat)} (h : s.Inv)
    (hb : ∀ {own}, Buddy.Inv s.mmu.buddy (own ++ s.others) →
      Buddy.SameGeom s.mmu.buddy b ∧ Buddy.Inv b (own ++ live)) :
    MMU.Inv { s.mmu with buddy := b } live := by
  obtain ⟨hr, addr, tables, hrep⟩ := h
  obtain ⟨hg, hinv⟩ := hb hrep.buddy
  obtain ⟨hrep', -⟩ : Rep { s.mmu with buddy := b } addr tables live none ∧ _ :=
    hrep.congr (fun _ _ _ => rfl) rfl hinv hg
  exact ⟨hr, addr, tables, hrep'⟩

/-- One call: it keeps the invariant, or lacks a page. -/
theorem Inv.returns (h : s.Inv) (hok : s.Ok call) :
    (s.Short call ∧ s.step call = none) ∨
    ∃ s', s.step call = some s' ∧ s'.Inv ∧ Same s.mmu s'.mmu ∧
      ∀ w, s'.mmu.walk w = entryAfter (s.mmu.walk w) (slot w) call := by
  cases call with
  | map vaddr bits =>
    rcases h.map vaddr bits with ⟨hs, he⟩ | ⟨t, he, -, ht, hsame, hwalk, -⟩
    · exact .inl ⟨hs, by simp only [PageClient.step, he, Option.map_none]⟩
    · exact .inr ⟨{ s with mmu := t }, by simp only [PageClient.step, he, Option.map_some], ht, hsame, hwalk⟩
  | pmap start end_ bits =>
    rcases h.pmap hok.1 hok.2 with
      ⟨k, hk, s₁, he₁, hs, he⟩ | ⟨t, he, ht, hsame, hwalk⟩
    · exact .inl ⟨⟨k, hk, s₁, he₁, hs⟩, by simp only [PageClient.step, he, Option.map_none]⟩
    · exact .inr ⟨{ s with mmu := t }, by simp only [PageClient.step, he, Option.map_some], ht, hsame, hwalk⟩
  | punmap start end_ =>
    obtain ⟨t, he, ht, hsame, hwalk⟩ := h.punmap hok.1 hok.2
    exact .inr ⟨{ s with mmu := t }, by simp only [PageClient.step, he, Option.map_some], ht, hsame, hwalk⟩
  | invalid vaddr =>
    obtain ⟨t, he, ht, hsame, hwalk⟩ := h.invalid vaddr
    exact .inr ⟨{ s with mmu := t }, by simp only [PageClient.step, he, Option.map_some], ht, hsame, hwalk⟩
  | take order =>
    refine .inr ⟨_, rfl, h.withBuddy fun hb => hb.take order, ⟨rfl, rfl, ?_⟩, fun _ => rfl⟩
    obtain ⟨own, hb⟩ := h.buddy
    exact (hb.take order).1
  | give addr order =>
    obtain ⟨own, hb⟩ := h.buddy
    obtain ⟨b, he, hg, -⟩ := hb.give hok
    refine .inr ⟨{ mmu := { s.mmu with buddy := b }, others := s.others.erase (addr, order) }, ?_,
      h.withBuddy fun hb => ?_, ⟨rfl, rfl, hg⟩, fun _ => rfl⟩
    · simp only [PageClient.step, MMU.free, he, Option.map_some]
    · obtain ⟨b', he', hg', hinv⟩ := hb.give hok
      rw [he, Option.some.injEq, Prod.mk.injEq] at he'
      exact he'.2 ▸ ⟨hg', hinv⟩

/-- A call that returns keeps the invariant. -/
theorem Inv.step (h : s.Inv) (hok : s.Ok call) (hs : s.step call = some s') :
    s'.Inv ∧ Same s.mmu s'.mmu ∧
      ∀ w, s'.mmu.walk w = entryAfter (s.mmu.walk w) (slot w) call := by
  rcases h.returns hok with ⟨-, hn⟩ | ⟨t, he, ht⟩
  · rw [hn] at hs
    cases hs
  · rw [he, Option.some.injEq] at hs
    exact hs ▸ ht

theorem run_inv (h : s.Inv) (hrun : Run Ok PageClient.step s calls s') :
    s'.Inv ∧ Same s.mmu s'.mmu := by
  apply hrun.inv (fun t => t.Inv ∧ Same s.mmu t.mmu) _ ⟨h, .rfl⟩
  intro s₁ call s₂ h₁ hok hs
  obtain ⟨h₂, hsame, -⟩ := h₁.1.step hok hs
  exact ⟨h₂, h₁.2.trans hsame⟩

/-- The kernel has executed the first two statements of `MMUInit` on a buddy allocator in use. -/
def Started (s : PageClient) : Prop :=
  ∃ (mmu : MMU) (ld : Linker), mmu.buddy.InUse s.others ∧
    mmu.allocRoot.map (·.sectionMap ld) = some s.mmu

theorem Started.inv (h : s.Started) : s.Inv ∧ ∀ w, s.mmu.walk w = 0 := by
  obtain ⟨mmu, ld, huse, hroot⟩ := h
  obtain ⟨hb, hstart⟩ := huse.inv
  obtain ⟨hinv, -, hwalk⟩ := allocRoot_inv hb hstart hroot
  exact ⟨hinv, hwalk⟩

/-- The sections of a small kernel below the heap `heap128`. -/
def linker128 : Linker where
  WRAP_START := 0x80001000
  WRAP_END := 0x80001400
  KCODE_BEGIN := 0x80001400
  KCODE_END := 0x80006200
  KDATA_BEGIN := 0x80007000
  KDATA_END := 0x8000a300
  USER_CODE_START := 0x8000b000
  USER_CODE_END := 0x8000c100
  UDATA_BEGIN := 0x8000d000
  UDATA_END := 0x8000e080

/-- The page table of that kernel, before anything is mapped. -/
def start128 : Option PageClient := do
  let (buddy, _) ← Buddy.buddyInit Buddy.heap128 12 Buddy.heap128.startAddr 4096
  let mmu ← (unset buddy).allocRoot
  return ⟨mmu.sectionMap linker128, []⟩

theorem start128_started (h : start128 = some s) : s.Started := by
  unfold start128 at h
  simp only [Option.bind_eq_bind, Option.bind_eq_some_iff, pure, Option.some.injEq] at h
  obtain ⟨⟨b, heap'⟩, hb, mmu, hmmu, rfl⟩ := h
  refine ⟨unset b, linker128, ⟨_, _, _, _, b, [], hb, .nil⟩, ?_⟩
  rw [hmmu, Option.map_some]

end PageClient

end SlabKernel
