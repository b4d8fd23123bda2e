import SlabKernel.Heap.Model
import SlabKernel.Lib.PtrList
import SlabKernel.Lib.Tiles

/-!
# The free list, in any order

`Pool m l F`: the blocks `l` tile the heap, every header holds its block's size, and the free list
of `m` links the free blocks, in the order `F`. A request of no bytes can leave the list out of order,
so nothing is assumed of `F` here; `Blocks` (`Refine.lean`) is the case of increasing addresses.
Each part of `kmem_alloc` and `kmem_free` is one operation on `l` and `F`.
-/

namespace SlabKernel

open Function (update update_self update_apply update_of_ne)
open PtrList Tiles

namespace MemoryAllocator

variable {m : MemoryAllocator} {l l₁ l₂ : List Tile} {b c : Tile} {F F₁ F₂ : List Nat} {x : Nat}

/-- The blocks of the heap, and the free list. -/
structure Pool (m : MemoryAllocator) (l : List Tile) (F : List Nat) : Prop where
  tiling : Tiling sizeofBlockHeader m.heap.startAddr l m.heap.endAddr
  links : DList (fun a => (m.header a).next) (fun a => (m.header a).prev) m.fmem_head F
  perm : F.Perm (frees l)
  size : ∀ b ∈ l, (m.header b.addr).size = b.size

@[simp] theorem mod_heap (a : Nat) (f : BlockHeader → BlockHeader) : (m.mod a f).heap = m.heap :=
  rfl

@[simp] theorem mod_fmem_head (a : Nat) (f : BlockHeader → BlockHeader) :
    (m.mod a f).fmem_head = m.fmem_head := rfl

@[simp] theorem mod_init (a : Nat) (f : BlockHeader → BlockHeader) : (m.mod a f).init = m.init :=
  rfl

theorem mod_header (a x : Nat) (f : BlockHeader → BlockHeader) :
    (m.mod a f).header x = if x = a then f (m.header a) else m.header x := by
  simp only [mod, update_apply]

@[simp] theorem setPrev_heap (p v : Ptr) : (m.setPrev p v).heap = m.heap := by
  cases p <;> rfl

@[simp] theorem setPrev_fmem_head (p v : Ptr) : (m.setPrev p v).fmem_head = m.fmem_head := by
  cases p <;> rfl

@[simp] theorem setPrev_init (p v : Ptr) : (m.setPrev p v).init = m.init := by
  cases p <;> rfl

theorem setPrev_next (p v : Ptr) (x : Nat) :
    ((m.setPrev p v).header x).next = (m.header x).next := by
  cases p with
  | none => rfl
  | some b =>
    simp only [setPrev, mod_header]
    split <;> simp_all

theorem setPrev_size (p v : Ptr) (x : Nat) :
    ((m.setPrev p v).header x).size = (m.header x).size := by
  cases p with
  | none => rfl
  | some b =>
    simp only [setPrev, mod_header]
    split <;> simp_all

theorem setPrev_prev (p v : Ptr) (x : Nat) :
    ((m.setPrev p v).header x).prev = setAt (fun a => (m.header a).prev) p v x := by
  cases p with
  | none => rfl
  | some b =>
    simp only [setPrev, setAt, mod_header, update_apply]
    split <;> rfl

/-! ## Positions -/

namespace Pool

theorem bounds (h : Pool m l F) (hb : b ∈ l) :
    m.heap.startAddr ≤ b.addr ∧ b.addr + 24 + b.size ≤ m.heap.endAddr := by
  have := h.tiling.bounds hb
  simp only [Tile.stop] at this
  exact this

theorem mem_iff (h : Pool m l F) : x ∈ F ↔ ∃ b ∈ l, b.free = true ∧ b.addr = x :=
  h.perm.mem_iff.trans mem_frees

/-- The free list is no longer than the heap. -/
theorem length_le (h : Pool m l F) (hword : m.heap.endAddr < 2 ^ 64) : F.length < addrSpace := by
  have h1 : F.length ≤ l.length := by
    rw [h.perm.length_eq, frees, List.length_map]
    exact List.length_filter_le _ _
  have h2 := h.tiling.length_le (by decide)
  unfold addrSpace
  omega

/-- No free block starts inside another block. -/
theorem notMem (h : Pool m (l₁ ++ b :: l₂) F) (hlo : b.addr < x)
    (hhi : x < b.addr + 24 + b.size) : x ∉ F := by
  intro hx
  obtain ⟨c, hc, -, rfl⟩ := h.mem_iff.1 hx
  obtain ⟨h1, h2⟩ := h.tiling.around
  unfold Tile.stop at h1 h2
  cases List.mem_append.1 hc with
  | inl hc =>
    have := h1 c hc
    omega
  | inr hc =>
    cases List.mem_cons.1 hc with
    | inl hcb =>
      rw [hcb] at hlo
      omega
    | inr hc =>
      have := h2 c hc
      unfold sizeofBlockHeader at this
      omega

/-- The other free blocks start elsewhere. -/
theorem addr_notMem (h : Pool m l (F₁ ++ x :: F₂)) : x ∉ F₁ ∧ x ∉ F₂ := by
  have hnd := List.nodup_middle.1 h.links.nodup
  rw [List.nodup_cons, List.mem_append, not_or] at hnd
  exact hnd.1

/-- A live block is not in the free list. -/
theorem live_notMem (h : Pool m l F) (hb : b ∈ l) (hf : b.free = false) : b.addr ∉ F := by
  intro hm
  obtain ⟨c, hc, hcf, he⟩ := h.mem_iff.1 hm
  rw [h.tiling.inj (by decide) hc hb he, hf] at hcf
  cases hcf

/-- The list around a free block. -/
theorem split_links (h : Pool m l (F₁ ++ x :: F₂)) : ∃ tail,
    DSeg (fun a => (m.header a).next) (fun a => (m.header a).prev) none m.fmem_head F₁
      (m.header x).prev (some x) ∧
    DSeg (fun a => (m.header a).next) (fun a => (m.header a).prev) (some x)
      (m.header x).next F₂ tail none ∧ (F₁ ++ F₂).Nodup := by
  have hnd := (List.nodup_cons.1 (List.nodup_middle.1 h.links.nodup)).2
  obtain ⟨tail, hl⟩ := h.links
  obtain ⟨p, q, h₁, rfl, rfl, h₂⟩ := dseg_append.1 hl
  exact ⟨tail, h₁, h₂, hnd⟩

/-- A block that is not in the list is no neighbour of `x`. -/
theorem neighbours (h : Pool m l (F₁ ++ x :: F₂)) {y : Nat} (h₁ : y ∉ F₁) (h₂ : y ∉ F₂) :
    (m.header x).prev ≠ some y ∧ (m.header x).next ≠ some y := by
  obtain ⟨tail, hd₁, hd₂, -⟩ := h.split_links
  exact ⟨fun he => h₁ (DSeg.exit_mem (he ▸ hd₁)), fun he => h₂ (DSeg.entry_mem (he ▸ hd₂))⟩

end Pool

/-! ## `kmem_alloc` -/

/-- The search finds the first block of the list that is large enough. -/
theorem findLoop_first {fuel : Nat} {p : Ptr} (bytes : Nat)
    (hl : Linked (fun a => (m.header a).next) p F) (hf : F.length ≤ fuel) :
    (m.findLoop bytes fuel p = some none ∧ ∀ x ∈ F, (m.header x).size < bytes) ∨
    ∃ F₁ x F₂, F = F₁ ++ x :: F₂ ∧ (∀ y ∈ F₁, (m.header y).size < bytes) ∧
      bytes ≤ (m.header x).size ∧ m.findLoop bytes fuel p = some (some x) := by
  induction F generalizing p fuel with
  | nil =>
    have hp : p = none := hl
    subst hp
    exact .inl ⟨by cases fuel <;> rfl, fun x hx => absurd hx List.not_mem_nil⟩
  | cons x F ih =>
    obtain ⟨rfl, hl⟩ := hl
    cases fuel with
    | zero => exact absurd hf (Nat.not_succ_le_zero _)
    | succ fuel =>
      unfold findLoop
      by_cases hle : (m.header x).size ≥ bytes
      · rw [if_pos hle]
        exact .inr ⟨[], x, F, rfl, fun y hy => absurd hy List.not_mem_nil, hle, rfl⟩
      · rw [if_neg hle]
        cases ih hl (Nat.le_of_succ_le_succ hf) with
        | inl hnone =>
          obtain ⟨he, hall⟩ := hnone
          refine .inl ⟨he, fun y hy => ?_⟩
          cases List.mem_cons.1 hy with
          | inl hyx => exact hyx ▸ Nat.lt_of_not_ge hle
          | inr hy => exact hall y hy
        | inr hsome =>
          obtain ⟨F₁, y, F₂, rfl, hall, hle', he⟩ := hsome
          refine .inr ⟨x :: F₁, y, F₂, rfl, fun z hz => ?_, hle', he⟩
          cases List.mem_cons.1 hz with
          | inl hzx => exact hzx ▸ Nat.lt_of_not_ge hle
          | inr hz => exact hall z hz

/-- The headers that `splitBlock` leaves, `nb` the address of the remainder. -/
theorem splitBlock_header {curr bytes nb x : Nat} (remainder : Nat)
    (hnb : curr + (sizeofBlockHeader + bytes) = nb) (hne : nb ≠ curr)
    (hp : (m.header curr).prev ≠ some curr ∧ (m.header curr).prev ≠ some nb)
    (hq : (m.header curr).next ≠ some curr ∧ (m.header curr).next ≠ some nb) (hx : x ≠ curr) :
    ((m.splitBlock curr bytes remainder).header x).next = (if x = nb then (m.header curr).next
      else setAt (fun a => (m.header a).next) (m.header curr).prev (some nb) x) ∧
    ((m.splitBlock curr bytes remainder).header x).prev = (if x = nb then (m.header curr).prev
      else setAt (fun a => (m.header a).prev) (m.header curr).next (some nb) x) ∧
    ((m.splitBlock curr bytes remainder).header x).size =
      if x = nb then sub64 remainder sizeofBlockHeader else (m.header x).size := by
  unfold splitBlock
  simp only [hnb]
  cases hp' : (m.header curr).prev with
  | none =>
    cases hq' : (m.header curr).next with
    | none =>
      simp only [mod, update_apply, setPrev, setAt, hp', hq', hne.symm, hx, if_false, if_true]
      grind
    | some q =>
      obtain ⟨hqc, hqn⟩ : q ≠ curr ∧ q ≠ nb := by simpa [hq'] using hq
      simp only [mod, update_apply, setPrev, setAt, hp', hq', hne.symm, hx, if_false, if_true]
      grind
  | some p =>
    obtain ⟨hpc, hpn⟩ : p ≠ curr ∧ p ≠ nb := by simpa [hp'] using hp
    cases hq' : (m.header curr).next with
    | none =>
      simp only [mod, update_apply, setPrev, setAt, hp', hq', hne.symm, hx, hpc.symm, if_false,
        if_true]
      grind
    | some q =>
      obtain ⟨hqc, hqn⟩ : q ≠ curr ∧ q ≠ nb := by simpa [hq'] using hq
      simp only [mod, update_apply, setPrev, setAt, hp', hq', hne.symm, hx, hpc.symm, if_false,
        if_true]
      grind

theorem splitBlock_fmem_head (curr bytes remainder : Nat) :
    (m.splitBlock curr bytes remainder).fmem_head = if (m.header curr).prev = none then
      some (curr + (sizeofBlockHeader + bytes)) else m.fmem_head := by
  unfold splitBlock
  cases hp : (m.header curr).prev <;> simp [mod_header, hp]

theorem splitBlock_heap (curr bytes remainder : Nat) :
    (m.splitBlock curr bytes remainder).heap = m.heap ∧
      (m.splitBlock curr bytes remainder).init = m.init := by
  unfold splitBlock
  cases hp : (m.header curr).prev <;> simp [mod_header, hp]

theorem splitBlock_size {curr bytes remainder : Nat} (hp : (m.header curr).prev ≠ some curr) :
    ((m.splitBlock curr bytes remainder).header curr).size = bytes := by
  unfold splitBlock
  cases hp' : (m.header curr).prev with
  | none => simp [mod_header, setPrev_size, hp']
  | some p =>
    have hpc : curr ≠ p := fun he => hp (he ▸ hp')
    simp [mod_header, setPrev_size, hp', hpc]

/-- The headers after `takeBlock`. -/
theorem takeBlock_header {curr : Nat} (hp : (m.header curr).prev ≠ some curr)
    (x : Nat) :
    ((m.takeBlock curr).header x).next =
      setAt (fun a => (m.header a).next) (m.header curr).prev (m.header curr).next x ∧
    ((m.takeBlock curr).header x).prev =
      setAt (fun a => (m.header a).prev) (m.header curr).next (m.header curr).prev x ∧
    ((m.takeBlock curr).header x).size = (m.header x).size := by
  unfold takeBlock
  cases hp' : (m.header curr).prev with
  | none =>
    refine ⟨?_, ?_, ?_⟩
    · simp only [setPrev_next, setAt]
    · simp only [setPrev_prev]
    · simp only [setPrev_size]
  | some p =>
    have hpc : curr ≠ p := fun he => hp (he ▸ hp')
    simp only [mod_header, if_neg hpc, hp']
    refine ⟨?_, ?_, ?_⟩
    · simp only [setPrev_next, mod_header, setAt, update_apply]
      split <;> rfl
    · rw [setPrev_prev]
      congr 1
      funext a
      simp only [mod_header]
      split <;> simp_all
    · simp only [setPrev_size, mod_header]
      split <;> simp_all

theorem takeBlock_fmem_head (curr : Nat) : (m.takeBlock curr).fmem_head =
    if (m.header curr).prev = none then (m.header curr).next else m.fmem_head := by
  unfold takeBlock
  cases hp : (m.header curr).prev with
  | none => simp [setPrev_next]
  | some p => simp

theorem takeBlock_heap (curr : Nat) :
    (m.takeBlock curr).heap = m.heap ∧ (m.takeBlock curr).init = m.init := by
  unfold takeBlock
  cases hp : (m.header curr).prev <;> simp

namespace Pool

variable {bytes : Nat}

/-- The address of a remainder is none of the list. -/
theorem remainder_notMem (h : Pool m (l₁ ++ b :: l₂) (F₁ ++ b.addr :: F₂)) (hle : bytes < b.size) :
    b.addr + (sizeofBlockHeader + bytes) ∉ F₁ ∧
      b.addr + (sizeofBlockHeader + bytes) ≠ b.addr ∧
      b.addr + (sizeofBlockHeader + bytes) ∉ F₂ := by
  have hin := h.notMem (x := b.addr + (sizeofBlockHeader + bytes))
    (by unfold sizeofBlockHeader; omega) (by unfold sizeofBlockHeader; omega)
  rwa [List.mem_append, List.mem_cons, not_or, not_or] at hin

/-- What a split leaves in the headers, `nb` the address of the remainder. -/
theorem split_header (h : Pool m (l₁ ++ b :: l₂) (F₁ ++ b.addr :: F₂)) (hle : bytes < b.size)
    (remainder : Nat) {y : Nat} (hy : y ≠ b.addr) :
    ((m.splitBlock b.addr bytes remainder).header y).next =
      (if y = b.addr + (sizeofBlockHeader + bytes) then (m.header b.addr).next
      else setAt (fun a => (m.header a).next) (m.header b.addr).prev
        (some (b.addr + (sizeofBlockHeader + bytes))) y) ∧
    ((m.splitBlock b.addr bytes remainder).header y).prev =
      (if y = b.addr + (sizeofBlockHeader + bytes) then (m.header b.addr).prev
      else setAt (fun a => (m.header a).prev) (m.header b.addr).next
        (some (b.addr + (sizeofBlockHeader + bytes))) y) ∧
    ((m.splitBlock b.addr bytes remainder).header y).size =
      if y = b.addr + (sizeofBlockHeader + bytes) then sub64 remainder sizeofBlockHeader
      else (m.header y).size := by
  obtain ⟨hn₁, hne, hn₂⟩ := h.remainder_notMem hle
  have hself := h.neighbours h.addr_notMem.1 h.addr_notMem.2
  have hnb := h.neighbours hn₁ hn₂
  exact splitBlock_header remainder rfl hne ⟨hself.1, hnb.1⟩ ⟨hself.2, hnb.2⟩ hy

/-- The check after a split never fires. -/
theorem fits (h : Pool m (l₁ ++ b :: l₂) (F₁ ++ b.addr :: F₂)) (hword : m.heap.endAddr < 2 ^ 64)
    (hle : bytes ≤ b.size) (hrem : sizeofBlockHeader < sub64 b.size bytes) :
    ¬ (m.splitBlock b.addr bytes (sub64 b.size bytes)).leavesHeap
      (b.addr + (sizeofBlockHeader + bytes)) := by
  have hbounds := (h.bounds (b := b) (by simp)).2
  rw [sub64_of_le hle (by omega)] at hrem ⊢
  have hlt : bytes < b.size := by unfold sizeofBlockHeader at hrem; omega
  have hsize := (h.split_header hlt (b.size - bytes) (h.remainder_notMem hlt).2.1).2.2
  rw [if_pos rfl, sub64_of_le (by omega) (by omega)] at hsize
  unfold leavesHeap
  rw [hsize, (splitBlock_heap _ _ _).1]
  unfold sizeofBlockHeader at *
  omega

/-- The remainder of `b` takes its place in the list. -/
theorem split (h : Pool m (l₁ ++ b :: l₂) (F₁ ++ b.addr :: F₂)) (hb : b.free = true)
    (hword : m.heap.endAddr < 2 ^ 64) (hle : bytes ≤ b.size)
    (hrem : sizeofBlockHeader < sub64 b.size bytes) :
    Pool (m.splitBlock b.addr bytes (sub64 b.size bytes))
      (l₁ ++ (b.cut sizeofBlockHeader bytes ++ l₂))
      (F₁ ++ (frees (b.cut sizeofBlockHeader bytes) ++ F₂)) := by
  obtain ⟨tail, h₁, h₂, hnd⟩ := h.split_links
  have hbounds := (h.bounds (b := b) (by simp)).2
  have htile := cut_tiling bytes h.tiling hle
  rw [sub64_of_le hle (by omega)] at hrem ⊢
  have hlt : bytes < b.size := by unfold sizeofBlockHeader at hrem; omega
  obtain ⟨hn₁, hne, hn₂⟩ := h.remainder_notMem hlt
  have hh := fun y hy => h.split_header hlt (b.size - bytes) (y := y) hy
  have hother : ∀ y ∈ F₁ ++ F₂, y ≠ b.addr ∧ y ≠ b.addr + (sizeofBlockHeader + bytes) := by
    intro y hy
    cases List.mem_append.1 hy with
    | inl hy => exact ⟨fun he => h.addr_notMem.1 (he ▸ hy), fun he => hn₁ (he ▸ hy)⟩
    | inr hy => exact ⟨fun he => h.addr_notMem.2 (he ▸ hy), fun he => hn₂ (he ▸ hy)⟩
  unfold Tile.cut at htile ⊢
  rw [if_pos hrem] at htile ⊢
  rw [frees_cons_live rfl, frees_cons_free rfl, frees_nil]
  refine ⟨?_, ?_, ?_, ?_⟩
  · rw [(splitBlock_heap _ _ _).1]
    exact htile
  · rw [splitBlock_fmem_head]
    refine DList.insert h₁ h₂ hnd ?_ ?_ (fun y hy => ?_) fun y hy => ?_
    · rw [(hh _ hne).1, if_pos rfl]
    · rw [(hh _ hne).2.1, if_pos rfl]
    · rw [(hh y (hother y hy).1).1, if_neg (hother y hy).2]
    · rw [(hh y (hother y hy).1).2.1, if_neg (hother y hy).2]
  · have hp := (frees_perm_cons hb).1 h.perm
    rw [List.cons_append, List.cons_append, List.nil_append, frees_append,
      frees_cons_live rfl, ← frees_append]
    exact (frees_perm_cons (b := ⟨_, _, true⟩) rfl).2 hp
  · obtain ⟨hother₁, hother₂⟩ := h.tiling.around
    have hold : ∀ c ∈ l₁ ++ l₂, ((m.splitBlock b.addr bytes (b.size - bytes)).header c.addr).size =
        c.size := by
      intro c hc
      have hmem : c ∈ l₁ ++ b :: l₂ := by
        simp only [List.mem_append, List.mem_cons] at hc ⊢
        tauto
      have hcn : c.addr ≠ b.addr ∧ c.addr ≠ b.addr + (sizeofBlockHeader + bytes) := by
        unfold Tile.stop sizeofBlockHeader at *
        cases List.mem_append.1 hc with
        | inl hc =>
          have := hother₁ c hc
          omega
        | inr hc =>
          have := hother₂ c hc
          omega
      rw [(hh c.addr hcn.1).2.2, if_neg hcn.2]
      exact h.size c hmem
    intro c hc
    simp only [List.cons_append, List.nil_append, List.mem_append, List.mem_cons] at hc
    obtain hc | rfl | rfl | hc := hc
    · exact hold c (List.mem_append_left _ hc)
    · exact splitBlock_size (h.neighbours h.addr_notMem.1 h.addr_notMem.2).1
    · rw [(hh _ hne).2.2, if_pos rfl, sub64_of_le (Nat.le_of_lt hrem) (by omega)]
    · exact hold c (List.mem_append_right _ hc)

/-- The block `b` leaves the free list. -/
theorem take (h : Pool m (l₁ ++ b :: l₂) (F₁ ++ b.addr :: F₂)) (hb : b.free = true) :
    Pool (m.takeBlock b.addr) (l₁ ++ { b with free := false } :: l₂) (F₁ ++ F₂) := by
  obtain ⟨tail, h₁, h₂, hnd⟩ := h.split_links
  have hh := takeBlock_header (m := m) (h.neighbours h.addr_notMem.1 h.addr_notMem.2).1
  refine ⟨?_, ?_, ?_, fun c hc => ?_⟩
  · rw [(takeBlock_heap _).1]
    exact set_tiling false h.tiling
  · rw [takeBlock_fmem_head]
    exact ⟨_, DQueue.link h₁ h₂ hnd (fun x _ => (hh x).1) fun x _ => (hh x).2.1⟩
  · have hp := (frees_perm_cons hb).1 h.perm
    rwa [frees_append, frees_cons_live rfl, ← frees_append]
  · rw [(hh _).2.2]
    cases List.mem_append.1 hc with
    | inl hc => exact h.size c (List.mem_append_left _ hc)
    | inr hc =>
      cases hc with
      | head => exact h.size b (by simp)
      | tail _ hc => exact h.size c (List.mem_append_right _ (.tail _ hc))

/-- The links of a live block do not matter. -/
theorem forget (h : Pool m l F) (hb : b ∈ l) (hf : b.free = false) :
    Pool ((m.mod b.addr fun x => { x with next := none }).mod b.addr fun x =>
      { x with prev := none }) l F := by
  have hne : ∀ x ∈ F, x ≠ b.addr := fun x hx he => h.live_notMem hb hf (he ▸ hx)
  refine ⟨h.tiling, ?_, h.perm, fun c hc => ?_⟩
  · refine h.links.congr (fun x hm => ?_) fun x hm => ?_
    · simp only [mod_header, if_neg (hne x hm)]
    · simp only [mod_header, if_neg (hne x hm)]
  · have := h.size c hc
    simp only [mod_header]
    split <;> simp_all

/-- The block `b` gives `bytes` bytes away. -/
theorem allot (h : Pool m (l₁ ++ b :: l₂) (F₁ ++ b.addr :: F₂)) (hb : b.free = true)
    (hword : m.heap.endAddr < 2 ^ 64) (hle : bytes ≤ b.size) :
    Pool (m.allot b.addr bytes) (l₁ ++ (b.cut sizeofBlockHeader bytes ++ l₂))
      (F₁ ++ (frees (b.cut sizeofBlockHeader bytes) ++ F₂)) := by
  have hbounds := (h.bounds (b := b) (by simp)).2
  unfold MemoryAllocator.allot
  simp only [h.size b (by simp)]
  by_cases hrem : sizeofBlockHeader < sub64 b.size bytes
  · rw [if_pos hrem, if_neg (h.fits hword hle hrem)]
    have hs := h.split hb hword hle hrem
    rw [sub64_of_le hle (by omega)] at hrem
    refine hs.forget (b := ⟨b.addr, bytes, false⟩) ?_ rfl
    unfold Tile.cut
    rw [if_pos hrem]
    simp
  · rw [if_neg hrem]
    rw [sub64_of_le hle (by omega)] at hrem
    unfold Tile.cut
    rw [if_neg hrem, frees_cons_live rfl, frees_nil]
    exact (h.take hb).forget (b := { b with free := false }) (by simp) rfl

end Pool

theorem allot_heap (curr bytes : Nat) :
    (m.allot curr bytes).heap = m.heap ∧ (m.allot curr bytes).init = m.init := by
  have key : ∀ m' : MemoryAllocator, m'.heap = m.heap ∧ m'.init = m.init →
      ((m'.mod curr fun x => { x with next := none }).mod curr fun x =>
        { x with prev := none }).heap = m.heap ∧
      ((m'.mod curr fun x => { x with next := none }).mod curr fun x =>
        { x with prev := none }).init = m.init := fun _ h => h
  have hs := splitBlock_heap (m := m) curr bytes (sub64 (m.header curr).size bytes)
  unfold allot
  apply key
  by_cases hrem : sub64 (m.header curr).size bytes > sizeofBlockHeader
  · simp only [if_pos hrem]
    split
    · exact hs
    · exact hs
  · simp only [if_neg hrem]
    exact takeBlock_heap _

/-! ## `kmem_free` -/

/-- The walk stops somewhere behind its start. -/
theorem seekLoop_stops {addr curr fuel : Nat}
    (hl : Linked (fun a => (m.header a).next) (some curr) (curr :: F)) (hf : F.length < fuel) :
    ∃ F₁ F₂, F = F₁ ++ F₂ ∧ m.seekLoop addr fuel curr = (curr :: F₁).getLast? := by
  induction F generalizing curr fuel with
  | nil =>
    cases fuel with
    | zero => exact absurd hf (Nat.not_lt_zero _)
    | succ fuel =>
      have hn : (m.header curr).next = none := hl.2
      refine ⟨[], [], rfl, ?_⟩
      unfold seekLoop
      simp only [hn, List.getLast?_singleton]
  | cons y F ih =>
    cases fuel with
    | zero => exact absurd hf (Nat.not_lt_zero _)
    | succ fuel =>
      have hn : (m.header curr).next = some y := hl.2.1
      unfold seekLoop
      simp only [hn]
      by_cases hy : addr > y
      · obtain ⟨F₁, F₂, rfl, he⟩ := ih ⟨rfl, hl.2.2⟩ (Nat.lt_of_succ_lt_succ hf)
        refine ⟨y :: F₁, F₂, rfl, ?_⟩
        rw [if_pos hy, he, List.getLast?_cons_cons]
      · exact ⟨[], y :: F, rfl, by rw [if_neg hy, List.getLast?_singleton]⟩

/-- The headers that `linkBlock` leaves. -/
theorem linkBlock_header {nb x : Nat} {curr q : Ptr}
    (hq : curr.elim m.fmem_head (fun a => (m.header a).next) = q) (hc : curr ≠ some nb)
    (hqn : q ≠ some nb) :
    ((m.linkBlock nb curr).header x).next =
      (if x = nb then q else setAt (fun a => (m.header a).next) curr (some nb) x) ∧
    ((m.linkBlock nb curr).header x).prev =
      (if x = nb then curr else setAt (fun a => (m.header a).prev) q (some nb) x) ∧
    ((m.linkBlock nb curr).header x).size = (m.header x).size := by
  unfold linkBlock
  cases curr with
  | none =>
    simp only [Option.elim] at hq
    cases q with
    | none =>
      simp only [mod, update_apply, setPrev, setAt, hq, if_true]
      grind
    | some q =>
      have hne : q ≠ nb := fun he => hqn (he ▸ rfl)
      simp only [mod, update_apply, setPrev, setAt, hq, if_true]
      grind
  | some c =>
    have hcn : c ≠ nb := fun he => hc (he ▸ rfl)
    simp only [Option.elim] at hq
    cases q with
    | none =>
      simp only [mod, update_apply, setPrev, setAt, hq, if_true, hcn, if_false]
      grind
    | some q =>
      have hne : q ≠ nb := fun he => hqn (he ▸ rfl)
      simp only [mod, update_apply, setPrev, setAt, hq, if_true, hcn, if_false]
      grind

theorem linkBlock_fmem_head (nb : Nat) (curr : Ptr) :
    (m.linkBlock nb curr).fmem_head = if curr = none then some nb else m.fmem_head := by
  unfold linkBlock
  cases curr <;> simp

theorem linkBlock_heap (nb : Nat) (curr : Ptr) :
    (m.linkBlock nb curr).heap = m.heap ∧ (m.linkBlock nb curr).init = m.init := by
  unfold linkBlock
  cases curr <;> simp

namespace Pool

/-- The search ends at a place of the list. -/
theorem seek (h : Pool m l F) (hword : m.heap.endAddr < 2 ^ 64) (addr : Nat) :
    ∃ F₁ F₂, F = F₁ ++ F₂ ∧ m.seek addr = some F₁.getLast? := by
  have hl := h.links.linked
  have hlen := h.length_le hword
  unfold MemoryAllocator.seek
  cases F with
  | nil =>
    have hh : m.fmem_head = none := hl
    exact ⟨[], [], rfl, by rw [hh, List.getLast?_nil]⟩
  | cons x F =>
    have hh : m.fmem_head = some x := hl.1
    simp only [hh]
    by_cases hx : addr < x
    · exact ⟨[], x :: F, rfl, by rw [if_pos hx, List.getLast?_nil]⟩
    · rw [List.length_cons] at hlen
      obtain ⟨F₁, F₂, rfl, he⟩ : ∃ F₁ F₂, F = F₁ ++ F₂ ∧
          m.seekLoop addr addrSpace x = (x :: F₁).getLast? :=
        seekLoop_stops ⟨rfl, hl.2⟩ (Nat.lt_of_succ_lt hlen)
      refine ⟨x :: F₁, F₂, rfl, ?_⟩
      rw [if_neg hx, he, List.getLast?_eq_some_getLast (List.cons_ne_nil _ _)]
      rfl

/-- A live block joins the free list. -/
theorem link (h : Pool m (l₁ ++ b :: l₂) (F₁ ++ F₂)) (hb : b.free = false) :
    Pool (m.linkBlock b.addr F₁.getLast?) (l₁ ++ { b with free := true } :: l₂)
      (F₁ ++ b.addr :: F₂) := by
  have hnot := h.live_notMem (b := b) (by simp) hb
  rw [List.mem_append, not_or] at hnot
  obtain ⟨hb₁, hb₂⟩ := hnot
  have hnd := h.links.nodup
  obtain ⟨tail, hl⟩ := h.links
  obtain ⟨p, q, h₁, h₂⟩ := dseg_append.1 hl
  have hp : p = F₁.getLast? := by simpa using DSeg.last h₁
  subst hp
  have hh := fun x => linkBlock_header (m := m) (x := x) (DSeg.exit_eq h₁)
    (fun he => hb₁ (DSeg.exit_mem (he ▸ h₁))) fun he => hb₂ (DSeg.entry_mem (he ▸ h₂))
  have hne : ∀ x ∈ F₁ ++ F₂, x ≠ b.addr := by
    intro x hx he
    cases List.mem_append.1 hx with
    | inl hx => exact hb₁ (he ▸ hx)
    | inr hx => exact hb₂ (he ▸ hx)
  refine ⟨?_, ?_, ?_, fun c hc => ?_⟩
  · rw [(linkBlock_heap _ _).1]
    exact set_tiling true h.tiling
  · rw [linkBlock_fmem_head]
    refine DList.insert h₁ h₂ hnd ?_ ?_ (fun x hx => ?_) fun x hx => ?_
    · rw [(hh _).1, if_pos rfl]
    · rw [(hh _).2.1, if_pos rfl]
    · rw [(hh x).1, if_neg (hne x hx)]
    · rw [(hh x).2.1, if_neg (hne x hx)]
  · have hp := h.perm
    rw [frees_append, frees_cons_live hb, ← frees_append] at hp
    exact (frees_perm_cons (b := { b with free := true }) rfl).2 hp
  · rw [(hh _).2.2]
    cases List.mem_append.1 hc with
    | inl hc => exact h.size c (List.mem_append_left _ hc)
    | inr hc =>
      cases hc with
      | head => exact h.size b (by simp)
      | tail _ hc => exact h.size c (List.mem_append_right _ (.tail _ hc))

/-- A block is left alone if the next one in the list does not touch it. -/
theorem join_none (h : Pool m l (F₁ ++ b.addr :: F₂)) (hb : b ∈ l)
    (hne : ∀ x ∈ F₂.head?, b.stop sizeofBlockHeader ≠ x) :
    m.tryToJoin (some b.addr) = (false, m) := by
  obtain ⟨tail, -, h₂, -⟩ := h.split_links
  unfold tryToJoin
  cases F₂ with
  | nil =>
    have hn : (m.header b.addr).next = none := h₂.2
    simp only [hn]
  | cons x F₂ =>
    have hn : (m.header b.addr).next = some x := h₂.1
    have hx : ¬ (b.addr + (m.header b.addr).size + sizeofBlockHeader = x) := by
      intro he
      rw [h.size b hb] at he
      apply hne x rfl
      unfold Tile.stop
      omega
    simp only [hn, if_neg hx]

/-- A block takes in the next one in the list if they touch. -/
theorem join (h : Pool m (l₁ ++ b :: c :: l₂) (F₁ ++ b.addr :: c.addr :: F₂)) (hb : b.free = true)
    (hc : c.free = true) : ∃ m', m.tryToJoin (some b.addr) = (true, m') ∧ m'.heap = m.heap ∧
      m'.init = m.init ∧
      Pool m' (l₁ ++ b.merge sizeofBlockHeader c :: l₂) (F₁ ++ b.addr :: F₂) := by
  obtain ⟨tail, h₁, h₂, hnd⟩ := h.split_links
  obtain ⟨hn, hp, h₃⟩ := h₂
  have hstop : b.addr + b.size + sizeofBlockHeader = c.addr := by
    have := (stop_eq_iff (l := []) (by decide) h.tiling).2 rfl
    unfold Tile.stop at this
    omega
  have hbs := h.size b (by simp)
  have hcs := h.size c (by simp)
  have hne : c.addr ≠ b.addr := by
    unfold sizeofBlockHeader at hstop
    omega
  let m₁ := m.mod b.addr fun x =>
    { x with size := x.size + ((m.header c.addr).size + sizeofBlockHeader) }
  let m₂ := m₁.mod b.addr fun x => { x with next := (m₁.header c.addr).next }
  have hm₁c : m₁.header c.addr = m.header c.addr := by
    simp only [m₁, mod_header, if_neg hne]
  have hm₂ : ∀ x, (m₂.header x).next =
      (if x = b.addr then (m.header c.addr).next else (m.header x).next) ∧
      (m₂.header x).prev = (m.header x).prev ∧ (m₂.header x).size =
        if x = b.addr then b.size + (c.size + sizeofBlockHeader) else (m.header x).size := by
    intro x
    simp only [m₂, mod_header, hm₁c]
    by_cases hx : x = b.addr
    · subst hx
      simp [m₁, mod_header, hbs, hcs]
    · simp [m₁, mod_header, hx]
  have hn₂ : (m₂.header b.addr).next = (m.header c.addr).next := by rw [(hm₂ _).1, if_pos rfl]
  have hstep : m.tryToJoin (some b.addr) =
      (true, m₂.setPrev (m.header c.addr).next (some b.addr)) := by
    have hcond : b.addr + (m.header b.addr).size + sizeofBlockHeader = c.addr := by rw [hbs, hstop]
    unfold tryToJoin
    simp only [hn, if_pos hcond]
    rw [← hn₂]
  refine ⟨_, hstep, ?_, ?_, ?_, ?_, ?_, ?_⟩
  · simp [m₂, m₁]
  · simp [m₂, m₁]
  · simpa [m₂, m₁] using merge_tiling h.tiling
  · have hh : (m₂.setPrev (m.header c.addr).next (some b.addr)).fmem_head = m.fmem_head := by
      simp [m₂, m₁]
    have hseg : DSeg (fun a => (m.header a).next) (fun a => (m.header a).prev) none m.fmem_head
        (F₁ ++ [b.addr]) (some b.addr) (some c.addr) :=
      dseg_append.2 ⟨_, _, h₁, rfl, rfl, rfl, hn⟩
    have hnd' : ((F₁ ++ [b.addr]) ++ F₂).Nodup := by
      rw [List.append_assoc]
      refine h.links.nodup.sublist ((List.Sublist.refl _).append ?_)
      exact List.Sublist.cons_cons _ (List.sublist_cons_self _ _)
    have hj : DQueue (fun a => ((m₂.setPrev (m.header c.addr).next (some b.addr)).header a).next)
        (fun a => ((m₂.setPrev (m.header c.addr).next (some b.addr)).header a).prev) _ _ _ :=
      DQueue.link hseg h₃ hnd' (fun x _ => ?_) fun x _ => ?_
    · rw [if_neg (Option.some_ne_none _), List.append_assoc, List.singleton_append] at hj
      rw [hh]
      exact ⟨_, hj⟩
    · rw [setPrev_next, (hm₂ x).1]
      simp only [setAt, update_apply]
    · rw [setPrev_prev]
      congr 1
      funext a
      exact (hm₂ a).2.1
  · have hpb := (frees_perm_cons hb).1 h.perm
    have hpc := (frees_perm_cons hc).1 hpb
    exact (frees_perm_cons (b := b.merge sizeofBlockHeader c) hb).2 hpc
  · intro d hd
    rw [setPrev_size, (hm₂ _).2.2]
    have hcase : d = b.merge sizeofBlockHeader c ∨ d ∈ l₁ ++ b :: c :: l₂ ∧ d.addr ≠ b.addr := by
      obtain ⟨h1, h2⟩ := h.tiling.around
      unfold Tile.stop sizeofBlockHeader at h1 h2
      cases List.mem_append.1 hd with
      | inl hd =>
        have := h1 d hd
        exact .inr ⟨List.mem_append_left _ hd, by omega⟩
      | inr hd =>
        cases List.mem_cons.1 hd with
        | inl hd => exact .inl hd
        | inr hd =>
          have := h2 d (.tail _ hd)
          exact .inr ⟨by simp [hd], by omega⟩
    cases hcase with
    | inl hd =>
      rw [hd]
      exact if_pos rfl
    | inr hd =>
      rw [if_neg hd.2]
      exact h.size d hd.1

/-- `tryToJoin` keeps the live blocks, and the list in front of its block. -/
theorem tryToJoin (h : Pool m l (F₁ ++ x :: F₂)) : ∃ joined m' l' F₂',
    m.tryToJoin (some x) = (joined, m') ∧ m'.heap = m.heap ∧ m'.init = m.init ∧
      Pool m' l' (F₁ ++ x :: F₂') ∧ lives l' = lives l := by
  obtain ⟨b, hb, hbf, rfl⟩ := h.mem_iff.1 (by simp : x ∈ F₁ ++ x :: F₂)
  by_cases hne : ∀ x ∈ F₂.head?, b.stop sizeofBlockHeader ≠ x
  · exact ⟨false, m, l, F₂, h.join_none hb hne, rfl, rfl, h, rfl⟩
  · cases F₂ with
    | nil => exact absurd (fun x hx => nomatch hx) hne
    | cons y F₂ =>
      obtain ⟨c, hc, hcf, rfl⟩ := h.mem_iff.1 (by simp : y ∈ F₁ ++ b.addr :: y :: F₂)
      have he : b.stop sizeofBlockHeader = c.addr := by simpa using hne
      obtain ⟨l₁, l₂, rfl⟩ := h.tiling.adjacent (by decide) hb hc he
      obtain ⟨m', hj, hheap, hinit, h'⟩ := h.join hbf hcf
      refine ⟨true, m', _, F₂, hj, hheap, hinit, h', ?_⟩
      rw [lives_append, lives_append, lives_cons_free hbf, lives_cons_free hcf,
        lives_cons_free (show (b.merge sizeofBlockHeader c).free = true from hbf)]

end Pool

theorem start_of_init (h : m.init ≠ 0) : m.start = m := by
  unfold start
  rw [if_neg fun hc => h hc.2]

theorem kmem_free_eq {addr nb : Nat} {curr : Ptr} {m₂ m₃ : MemoryAllocator} {j₁ j₂ : Bool}
    (hseek : m.seek addr = some curr) (hnb : addr - sizeofBlockHeader = nb)
    (h₂ : (m.linkBlock nb curr).tryToJoin (some nb) = (j₁, m₂))
    (h₃ : m₂.tryToJoin curr = (j₂, m₃)) :
    m.kmem_free (some addr) = some (0, (m.linkBlock nb curr).tryToUnmap nb ++
      m₂.unmapJoined j₁ (some nb) ++ m₃.unmapJoined j₂ curr, m₃) := by
  subst hnb
  refine Option.bind_eq_some_iff.2 ⟨curr, hseek, ?_⟩
  simp only
  rw [h₂]
  simp only
  rw [h₃]
  rfl

namespace Pool

/-- `kmem_alloc` takes the first block of the list that is large enough, if there is one. -/
theorem kmem_alloc (h : Pool m l F) (hinit : m.init ≠ 0) (hword : m.heap.endAddr < 2 ^ 64)
    (n : Nat) :
    (m.kmem_alloc n = some (none, [], m) ∧
      ∀ x ∈ F, (m.header x).size < n * memBlockSize % 2 ^ 64) ∨
    ∃ l₁ b l₂ F₁ F₂ m', l = l₁ ++ b :: l₂ ∧ b.free = true ∧ F = F₁ ++ b.addr :: F₂ ∧
      n * memBlockSize % 2 ^ 64 ≤ b.size ∧
      (∀ y ∈ F₁, (m.header y).size < n * memBlockSize % 2 ^ 64) ∧
      m.findLoop (n * memBlockSize % 2 ^ 64) addrSpace m.fmem_head = some (some b.addr) ∧
      m' = m.allot b.addr (n * memBlockSize % 2 ^ 64) ∧
      m.kmem_alloc n = some (some (b.addr + sizeofBlockHeader), m'.mapBlock b.addr, m') ∧
      m'.heap = m.heap ∧ m'.init = m.init ∧
      Pool m' (l₁ ++ (b.cut sizeofBlockHeader (n * memBlockSize % 2 ^ 64) ++ l₂))
        (F₁ ++ (frees (b.cut sizeofBlockHeader (n * memBlockSize % 2 ^ 64)) ++ F₂)) := by
  unfold MemoryAllocator.kmem_alloc
  simp only [start_of_init hinit, Option.bind_eq_bind]
  cases findLoop_first (n * memBlockSize % 2 ^ 64) h.links.linked
    (Nat.le_of_lt (h.length_le hword)) with
  | inl hnone =>
    obtain ⟨he, hall⟩ := hnone
    rw [he]
    exact .inl ⟨rfl, hall⟩
  | inr hsome =>
    obtain ⟨F₁, x, F₂, rfl, hall, hle, he⟩ := hsome
    obtain ⟨b, hb, hbf, rfl⟩ := h.mem_iff.1 (by simp : x ∈ F₁ ++ x :: F₂)
    rw [h.size b hb] at hle
    obtain ⟨l₁, l₂, rfl⟩ := List.append_of_mem hb
    rw [he]
    exact .inr ⟨l₁, b, l₂, F₁, F₂, _, rfl, hbf, rfl, hle, hall, rfl, rfl, rfl, (allot_heap _ _).1,
      (allot_heap _ _).2, h.allot hbf hword hle⟩

/-- `kmem_free` of a live block returns. -/
theorem kmem_free (h : Pool m (l₁ ++ b :: l₂) F) (hb : b.free = false)
    (hword : m.heap.endAddr < 2 ^ 64) :
    ∃ calls m' l' F', m.kmem_free (some (b.addr + sizeofBlockHeader)) = some (0, calls, m') ∧
      m'.heap = m.heap ∧ m'.init = m.init ∧ Pool m' l' F' ∧ lives l' = lives l₁ ++ lives l₂ := by
  obtain ⟨F₁, F₂, rfl, hseek⟩ := h.seek hword (b.addr + sizeofBlockHeader)
  have h₁ := h.link hb
  obtain ⟨j₁, m₂, l₃, F₃, he₂, hheap₂, hinit₂, h₂, hlive₂⟩ := h₁.tryToJoin
  rw [lives_append, lives_cons_free rfl] at hlive₂
  -- the block in front, if there is one
  have hleft : ∃ j₂ m₃ l' F', m₂.tryToJoin F₁.getLast? = (j₂, m₃) ∧ m₃.heap = m₂.heap ∧
      m₃.init = m₂.init ∧ Pool m₃ l' F' ∧ lives l' = lives l₃ := by
    cases List.eq_nil_or_concat F₁ with
    | inl hnil =>
      rw [hnil] at h₂ ⊢
      exact ⟨false, m₂, l₃, _, rfl, rfl, rfl, h₂, rfl⟩
    | inr hcons =>
      obtain ⟨F₀, x, hF⟩ := hcons
      rw [hF, List.concat_eq_append, List.append_assoc] at h₂
      rw [hF, List.concat_eq_append, List.getLast?_concat]
      obtain ⟨j₂, m₃, l', F', he, hheap, hinit, h', hlive⟩ := h₂.tryToJoin
      exact ⟨j₂, m₃, l', _, he, hheap, hinit, h', hlive⟩
  obtain ⟨j₂, m₃, l', F', he₃, hheap₃, hinit₃, h₃, hlive₃⟩ := hleft
  refine ⟨_, m₃, l', F', kmem_free_eq hseek (Nat.add_sub_cancel _ _) he₂ he₃, ?_, ?_, h₃, ?_⟩
  · rw [hheap₃, hheap₂, (linkBlock_heap _ _).1]
  · rw [hinit₃, hinit₂, (linkBlock_heap _ _).2]
  · rw [hlive₃, hlive₂]

end Pool

end MemoryAllocator

end SlabKernel
