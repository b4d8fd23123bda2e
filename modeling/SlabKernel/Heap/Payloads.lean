import SlabKernel.Heap.MemAlloc

/-!
# What a client of the heap has

Requests of any size are admitted. A live payload has the bytes that were asked for, as far as their
number fits a word, in the heap; two payloads do not overlap (`Holding.apart`).
-/

namespace SlabKernel

open PtrList Tiles Runs

namespace HeapClient

variable {s s' : HeapClient} {heap : HeapBounds} {l : List Tile} {F : List Nat} {c : HeapCall}
  {x y : Nat × Nat}

/-- The number of bytes of a payload. -/
abbrev bytes (x : Nat × Nat) : Nat := x.2 * memBlockSize % 2 ^ 64

/-- The heap before its first call, or in use. Each live payload lies in a live block of its size. -/
structure Holding (heap : HeapBounds) (s : HeapClient) : Prop where
  room : heap.Room
  reached : s = ⟨MemoryAllocator.reset heap, []⟩ ∨ s.heap.heap = heap ∧ ∃ l F, Loose s l F ∧
    ∀ x ∈ s.live, ∃ b ∈ lives l, payload b = x.1 ∧ bytes x ≤ b.size

theorem Holding.reset (hroom : heap.Room) : Holding heap ⟨MemoryAllocator.reset heap, []⟩ :=
  ⟨hroom, .inl rfl⟩

/-- An allocation finds the heap in use. -/
theorem Holding.start (h : Holding heap s) : s.heap.start.heap = heap ∧ ∃ l F,
    Loose ⟨s.heap.start, s.live⟩ l F ∧
    ∀ x ∈ s.live, ∃ b ∈ lives l, payload b = x.1 ∧ bytes x ≤ b.size := by
  rcases h.reached with rfl | ⟨hheap, l, F, hl, hsize⟩
  · obtain ⟨hheap, l, F, hl⟩ := ReachedAny.start (.inl rfl) h.room
    exact ⟨hheap, l, F, hl, fun x hx => absurd hx List.not_mem_nil⟩
  · rw [MemoryAllocator.start_of_init hl.started]
    exact ⟨hheap, l, F, hl, hsize⟩

/-- A cut leaves a live block of the size asked for. -/
theorem lives_cut (b : Tile) {n : Nat} (hn : n ≤ b.size) :
    ∃ size, lives (b.cut sizeofBlockHeader n) = [⟨b.addr, size, false⟩] ∧ n ≤ size := by
  unfold Tile.cut
  split
  · exact ⟨n, rfl, le_rfl⟩
  · exact ⟨b.size, rfl, hn⟩

theorem Holding.alloc {n : Nat} (h : Holding heap s) (he : s.step (.alloc n) = some s') :
    Holding heap s' := by
  obtain ⟨hheap, l, F, hl, hsize⟩ := h.start
  unfold HeapClient.step at he
  dsimp only at he
  rw [← kmem_alloc_start] at he
  refine ⟨h.room, .inr ?_⟩
  cases hl.pool.kmem_alloc hl.started hl.word n with
  | inl hnone =>
    simp only [hnone.1, Option.map_some, Option.elim, Option.some.injEq] at he
    subst he
    exact ⟨hheap, l, F, hl, hsize⟩
  | inr hsome =>
    obtain ⟨l₁, b, l₂, F₁, F₂, m', rfl, hb, rfl, hle, -, -, -, hk, hheap', hinit, hpool⟩ := hsome
    simp only [hk, Option.map_some, Option.elim, Option.some.injEq] at he
    subst he
    obtain ⟨size, hcut, hn⟩ := lives_cut b hle
    have hkeeps : ∀ c ∈ lives (l₁ ++ b :: l₂), c ∈
        lives (l₁ ++ (b.cut sizeofBlockHeader (n * memBlockSize % 2 ^ 64) ++ l₂)) := by
      intro c hc
      rw [lives_append, lives_cons_free hb] at hc
      rw [lives_append, lives_append]
      simp only [List.mem_append] at hc ⊢
      tauto
    have hnew : (⟨b.addr, size, false⟩ : Tile) ∈
        lives (l₁ ++ (b.cut sizeofBlockHeader (n * memBlockSize % 2 ^ 64) ++ l₂)) := by
      rw [lives_append, lives_append, hcut]
      simp
    have hall : ∀ x ∈ (b.addr + sizeofBlockHeader, n) :: s.live, ∃ c ∈
        lives (l₁ ++ (b.cut sizeofBlockHeader (n * memBlockSize % 2 ^ 64) ++ l₂)),
        payload c = x.1 ∧ bytes x ≤ c.size := by
      intro x hx
      cases hx with
      | head => exact ⟨_, hnew, rfl, hn⟩
      | tail _ hx =>
        obtain ⟨c, hc, hcx⟩ := hsize x hx
        exact ⟨c, hkeeps c hc, hcx⟩
    refine ⟨hheap'.trans hheap, _, _, ⟨hpool, hinit ▸ hl.started, hheap' ▸ hl.word, fun x hx => ?_⟩,
      hall⟩
    obtain ⟨c, hc, hcx, -⟩ := hall x hx
    exact ⟨c, hc, hcx⟩

theorem Holding.free {addr : Nat} (h : Holding heap s) (hok : s.OkAny (.free addr))
    (he : s.step (.free addr) = some s') : Holding heap s' := by
  obtain ⟨n, ha⟩ := hok
  rcases h.reached with rfl | ⟨hheap, l, F, hl, hsize⟩
  · cases ha
  obtain ⟨b, hb, hpay⟩ := hl.live _ ha
  obtain rfl : payload b = addr := hpay
  obtain ⟨hbl, hbf⟩ := mem_lives.1 hb
  obtain ⟨l₁, l₂, rfl⟩ := List.append_of_mem hbl
  obtain ⟨calls, m', l', F', hk, hheap', hinit, hpool, hlives⟩ := hl.pool.kmem_free hbf hl.word
  unfold HeapClient.step at he
  simp only [hk, Option.map_some, Option.some.injEq] at he
  subst he
  have hall : ∀ x ∈ s.live.filter fun x => x.1 ≠ payload b, ∃ c ∈ lives l',
      payload c = x.1 ∧ bytes x ≤ c.size := by
    intro x hx
    obtain ⟨hxl, hne⟩ := List.mem_filter.1 hx
    obtain ⟨c, hc, hcx, hle⟩ := hsize x hxl
    refine ⟨c, ?_, hcx, hle⟩
    have hcb : c ≠ b := fun he => by
      rw [he] at hcx
      simp [hcx] at hne
    rw [lives_append, lives_cons_live hbf] at hc
    rw [hlives]
    simp only [List.mem_append, List.mem_cons] at hc ⊢
    tauto
  refine ⟨h.room, .inr ⟨hheap'.trans hheap, _, _, ⟨hpool, hinit ▸ hl.started, hheap' ▸ hl.word,
    fun x hx => ?_⟩, hall⟩⟩
  obtain ⟨c, hc, hcx, -⟩ := hall x hx
  exact ⟨c, hc, hcx⟩

theorem Holding.step (h : Holding heap s) (hok : s.OkAny c) (he : s.step c = some s') :
    Holding heap s' := by
  cases c with
  | alloc n => exact h.alloc he
  | free addr => exact h.free hok he

/-- A payload lies in the heap. -/
theorem Holding.inside (h : Holding heap s) (hx : x ∈ s.live) :
    heap.startAddr ≤ x.1 ∧ x.1 + bytes x ≤ heap.endAddr := by
  rcases h.reached with rfl | ⟨rfl, l, F, hl, hsize⟩
  · cases hx
  obtain ⟨b, hb, hpay, hle⟩ := hsize x hx
  obtain ⟨hlo, hhi⟩ := hl.pool.tiling.bounds (mem_lives.1 hb).1
  unfold Tile.stop at hhi
  unfold payload at hpay
  omega

/-- Two payloads do not overlap. -/
theorem Holding.apart (h : Holding heap s) (hx : x ∈ s.live) (hy : y ∈ s.live) (hne : x.1 ≠ y.1) :
    x.1 + bytes x ≤ y.1 ∨ y.1 + bytes y ≤ x.1 := by
  rcases h.reached with rfl | ⟨-, l, F, hl, hsize⟩
  · cases hx
  obtain ⟨b, hb, hpay, hle⟩ := hsize x hx
  obtain ⟨c, hc, hpay', hle'⟩ := hsize y hy
  have hbc : b ≠ c := fun he => hne (hpay.symm.trans ((congrArg payload he).trans hpay'))
  have hsep := hl.pool.tiling.separate (mem_lives.1 hb).1 (mem_lives.1 hc).1 hbc
  unfold Tile.stop at hsep
  unfold payload at hpay hpay'
  omega

/-- A live payload can be given back. -/
theorem Holding.free_some {addr : Nat} (h : Holding heap s) (hok : s.OkAny (.free addr)) :
    ∃ s', s.step (.free addr) = some s' := by
  obtain ⟨n, ha⟩ := hok
  rcases h.reached with rfl | ⟨-, l, F, hl, -⟩
  · cases ha
  obtain ⟨b, hb, hpay⟩ := hl.live _ ha
  obtain rfl : payload b = addr := hpay
  obtain ⟨hbl, hbf⟩ := mem_lives.1 hb
  obtain ⟨l₁, l₂, rfl⟩ := List.append_of_mem hbl
  obtain ⟨calls, m', l', F', hk, -⟩ := hl.pool.kmem_free hbf hl.word
  unfold HeapClient.step
  simp only [hk, Option.map_some]
  exact ⟨_, rfl⟩

/-- Live payloads are given back, each once. -/
theorem Holding.frees {ps : List Nat} (h : Holding heap s) (hnd : ps.Nodup)
    (hok : ∀ p ∈ ps, s.OkAny (.free p)) :
    ∃ s', ps.foldlM (fun s p => s.step (.free p)) s = some s' ∧ Holding heap s' ∧
      Run OkAny HeapClient.step s (ps.map .free) s' ∧
      ∀ x, x ∈ s'.live ↔ x ∈ s.live ∧ x.1 ∉ ps := by
  induction ps generalizing s with
  | nil => exact ⟨s, rfl, h, .nil, fun x => (and_iff_left List.not_mem_nil).symm⟩
  | cons p ps ih =>
    obtain ⟨s₁, hs₁⟩ := h.free_some (hok p (.head _))
    obtain ⟨hp, hnd⟩ := List.nodup_cons.1 hnd
    have hlive : s₁.live = s.live.filter fun x => x.1 ≠ p := by
      obtain ⟨r, -, rfl⟩ := Option.map_eq_some_iff.1 hs₁
      rfl
    obtain ⟨s', he, h', hrun, hl⟩ := ih (h.step (hok p (.head _)) hs₁) hnd fun q hq => by
      obtain ⟨n, hn⟩ := hok q (.tail _ hq)
      refine ⟨n, ?_⟩
      rw [hlive]
      exact List.mem_filter.2 ⟨hn, decide_eq_true fun he => hp (he ▸ hq)⟩
    refine ⟨s', ?_, h', .cons (hok p (.head _)) hs₁ hrun, fun x => ?_⟩
    · rw [List.foldlM_cons, hs₁]
      exact he
    · rw [hl x, hlive, List.mem_filter, decide_eq_true_iff, List.mem_cons]
      tauto

theorem Holding.run {cs : List HeapCall} (h : Holding heap s)
    (hrun : Run OkAny HeapClient.step s cs s') : Holding heap s' :=
  hrun.inv (Holding heap) (fun _ _ _ h hok he => h.step hok he) h

end HeapClient

end SlabKernel
