import SlabKernel.Slab.Lifetimes
import SlabKernel.Slab.Shrinking
import SlabKernel.Slab.Straddling

/-!
# The alignment of objects

The objects of a slab lie behind its header, of 72 bytes, and its free array, of 4 bytes for each
slot. A slab starts a page. So objects whose size is a multiple of 8 lie at multiples of 8 iff the
number of slots is even (`Inv.slot_aligned`), and this number depends on their size
(`Cache.even_iff`). The addresses that a call returns, constructs or destructs are slots
(`Inv.events_slot`).
-/

namespace SlabKernel

open Lifecycle Runs

namespace Cache

variable {size o : Nat}

/-- The sizes whose slabs have an even number of slots. -/
def EvenSlots (size : Nat) : Prop :=
  if size ≤ 4020 then 2 ∣ (blockSize - sizeofSlab) / (size + 4) else Straddles size

instance (size : Nat) : Decidable (EvenSlots size) :=
  inferInstanceAs (Decidable (if size ≤ 4020 then 2 ∣ (blockSize - sizeofSlab) / (size + 4)
    else Straddles size))

theorem even_iff (hs : size + 76 ≤ 2 ^ 12 * blockSize)
    (ho : getOrder size = some (o, slotsOf size o)) : 2 ∣ slotsOf size o ↔ EvenSlots size := by
  have hpage := inPage_iff hs ho
  obtain ⟨o', ho', hpos, -, hprev⟩ := getOrder_spec (hs.trans (by decide))
  rw [ho, Option.some.injEq, Prod.mk.injEq] at ho'
  obtain ⟨rfl, -⟩ := ho'
  obtain ⟨hle, hlt⟩ := order_bounds hprev hpos
  unfold EvenSlots
  split
  · rename_i hsmall
    -- one page has room for a slot
    have hzero : o = 0 := by
      by_contra hne
      have hpow : 2 ^ 12 ≤ 2 ^ (o + 11) := Nat.pow_le_pow_right (by decide) (by omega)
      have := hlt.resolve_left hne
      omega
    subst hzero
    rw [slotsOf, Nat.pow_zero, Nat.one_mul]
  · have hne : o ≠ 0 := by
      intro hzero
      subst hzero
      omega
    have htwo := slotsOf_window (Nat.pos_of_ne_zero hne) (hprev.resolve_left hne) hpos
    constructor
    · intro heven
      by_contra hn
      have := (hpage.2 hn).resolve_left hne
      omega
    · intro hstr
      have hone : slotsOf size o ≠ 1 := fun h1 => hpage.1 (.inr h1) hstr
      cases htwo with
      | inl h => exact h.1 ▸ Nat.dvd_refl 2
      | inr h => exact absurd h.1 hone

end Cache

/-- Slots whose size is a multiple of 8 lie at multiples of 8 iff their number is even. -/
theorem Kmem.Inv.slot_aligned {k : Kmem} {V : View} {extra : List (Nat × Nat)} {c p : Nat}
    (h : k.Inv V extra) (hc : c ∈ V.caches) (ho : (k.cache c).IsObject)
    (h8 : 8 ∣ (k.cache c).slotSize) (hslot : IsSlot k V c p) :
    8 ∣ p ↔ 2 ∣ (k.cache c).objNum := by
  obtain ⟨t, i, ht, -, m, hm, rfl⟩ := hslot
  have hmem := (h.placed c hc t ht).object ho.type
  rw [hm, Option.some.injEq] at hmem
  have hpage := h.aligned (block_mem hc ht)
  unfold Kmem.block at hpage
  rw [if_pos ho.type] at hpage
  have ht8 : 8 ∣ t := Nat.dvd_trans (by decide) hpage
  have hi : 8 ∣ i * (k.cache c).slotSize := Nat.dvd_mul_left_of_dvd h8 i
  unfold sizeofSlab at hmem
  omega

namespace SlabClient

variable {s : SlabClient} {V : View} {extra : List (Nat × Nat)} {c : Nat} {op : SlabCall}

/-- The destructor runs on slots. -/
theorem Inv.destructed_slot (h : s.Inv V extra) (hc : c ∈ s.handles) {f p : Nat}
    (hp : (f, p) ∈ (V.lists c .FREE ++ (V.lists c .PARTIAL ++ V.lists c .FULL)).flatMap
      (s.kmem.destructed c)) : IsSlot s.kmem V c p := by
  obtain ⟨t, ht, hp⟩ := List.mem_flatMap.1 hp
  apply (h.mem_slotList hc).1
  refine List.mem_flatMap.2 ⟨t, ht, ?_⟩
  unfold Kmem.destructed Cache.callsOn at hp
  cases hdtor : (s.kmem.cache c).dtor with
  | none =>
    rw [hdtor] at hp
    exact absurd hp List.not_mem_nil
  | some g =>
    rw [hdtor, Option.elim_some] at hp
    obtain ⟨i, hi, he'⟩ := List.mem_map.1 hp
    exact List.mem_map.2 ⟨i, hi, (Prod.mk.inj he').2⟩

/-- A call constructs, destructs and hands out slots: those it finds, or those of a new slab. -/
theorem Inv.events_slot (h : s.Inv V extra) (hc : c ∈ s.handles)
    (hok : s.Ok op ∨ ∃ d, op = .shrink d) {q : Nat × Event Nat} (hq : q ∈ events c s op) :
    IsSlot s.kmem V c q.1 ∨ ∃ (s' : SlabClient) (V' : View), s'.Inv V' extra ∧ c ∈ s'.handles ∧
      (s'.kmem.cache c).fixed = (s.kmem.cache c).fixed ∧ IsSlot s'.kmem V' c q.1 := by
  cases op with
  | alloc d =>
    obtain ⟨hdc, hq⟩ := List.mem_ite_nil_right.1 hq
    obtain ⟨r, k', V', he, hi, hserved, -, -, hgrew⟩ := h.alloc hc
    refine .inr ⟨_, V', hi, hc, hserved.fixed c, ?_⟩
    rw [he, Option.elim_some, callsSince_append hgrew.calls, List.mem_append] at hq
    cases hq with
    | inl hcall =>
      obtain ⟨⟨f, p⟩, hp, rfl⟩ := List.mem_map.1 hcall
      apply (hgrew.slot p).2
      right
      cases hctor : (s.kmem.cache c).ctor with
      | none =>
        rw [hctor] at hp
        exact absurd hp List.not_mem_nil
      | some g =>
        rw [hctor, Option.elim_some] at hp
        obtain ⟨p', hp', he'⟩ := List.mem_map.1 hp
        exact (Prod.mk.inj he').2 ▸ hp'
    | inr hgiven =>
      obtain ⟨p, hp, rfl⟩ := List.mem_map.1 hgiven
      apply hi.isSlot_of_live hc
      exact List.mem_append_left _ (List.mem_map.2 ⟨p, hp, rfl⟩)
  | free d p =>
    obtain ⟨⟨rfl, hl⟩, hq⟩ := List.mem_ite_nil_right.1 hq
    obtain ⟨-, d', hl', hpage⟩ := hok.resolve_right fun he => nomatch he
    have hslot := h.isSlot_of_live hc hl
    left
    have hdd : d' = d := by
      obtain ⟨t, i, hs⟩ := hslot
      obtain ⟨t', i', hs'⟩ := h.isSlot_of_live (h.owner _ hl') hl'
      exact (h.whole.slot_unique (h.user d' (h.owner _ hl')).1 (h.user d hc).1 hs' hs).1
    obtain ⟨k', V', he, -, -, -, hcalls⟩ := h.free hc hl (hdd ▸ hpage)
    rw [List.append_assoc] at hcalls
    rw [he, Option.elim_some, callsSince_append hcalls] at hq
    have hp : q.1 = p := by
      cases hq with
      | head => rfl
      | tail _ hm =>
        obtain ⟨⟨f, x⟩, hx, rfl⟩ := List.mem_map.1 hm
        have hone : ∀ fn : Ptr, (f, x) ∈ (fn.elim [] fun f => [(f, p)]) → x = p := by
          intro fn hfn
          cases fn with
          | none => exact absurd hfn List.not_mem_nil
          | some g => exact (Prod.mk.inj (List.mem_singleton.1 hfn)).2
        exact (List.mem_append.1 hx).elim (hone _) (hone _)
    rw [hp]
    exact hslot
  | destroy d =>
    obtain ⟨rfl, hq⟩ := List.mem_ite_nil_right.1 hq
    left
    rcases h.destroy hc with ⟨-, hn⟩ | ⟨k', V', he, -, -, -, -, -, -, -, hcalls⟩
    · rw [hn] at hq
      exact absurd hq List.not_mem_nil
    rw [he, Option.elim_some, callsSince_append hcalls] at hq
    obtain ⟨⟨f, p⟩, hp, rfl⟩ := List.mem_map.1 hq
    exact h.destructed_slot hc hp
  | shrink d =>
    obtain ⟨rfl, hq⟩ := List.mem_ite_nil_right.1 hq
    left
    by_cases hz : (s.kmem.cache d).shrink = 0
    · obtain ⟨k', he, -, -⟩ := h.shrink hc (.inl hz)
      rw [he, Option.elim_some, Inv.shrink_calls (.inl hz) he] at hq
      exact absurd hq List.not_mem_nil
    · obtain ⟨n, k', he, hs⟩ := h.shrunk hc hz
      rw [he, Option.elim_some, callsSince_append hs.calls] at hq
      obtain ⟨⟨f, p⟩, hp, rfl⟩ := List.mem_map.1 hq
      refine h.destructed_slot hc (f := f) ?_
      rw [List.flatMap_append]
      exact List.mem_append_left _ hp
  | create | kmalloc | kfree => exact absurd hq List.not_mem_nil

/-- **Alignment.** In every run, for a cache whose size of slots is a multiple of 8, every address
that the next call, be it a `kmem_cache_shrink` that gives slabs back, returns from
`kmem_cache_alloc` or passes to a constructor or a destructor is a multiple of 8 iff the slabs of this
size have an even number of slots. -/
theorem aligned_iff {heap : HeapBounds} {space : Nat} {blockNum : Int} {ops : List SlabCall}
    {k : Kmem} (hinit : kmem_init heap 12 space blockNum = some k)
    (hrun : Run Ok SlabClient.step (boot k) ops s) (hc : c ∈ s.handles)
    (h8 : 8 ∣ (s.kmem.cache c).slotSize) (hok : s.Ok op ∨ ∃ d, op = .shrink d) :
    ∀ q ∈ events c s op, 8 ∣ q.1 ↔ Cache.EvenSlots (s.kmem.cache c).slotSize := by
  obtain ⟨⟨V, h⟩, hs⟩ := run_sized (boot_inv hinit)
    (fun _ hc => absurd hc List.not_mem_nil) hrun
  obtain ⟨hcm, ho, -⟩ := h.user c hc
  obtain ⟨hsize, horder⟩ := hs c hc
  have heven : 2 ∣ (s.kmem.cache c).objNum ↔ Cache.EvenSlots (s.kmem.cache c).slotSize := by
    obtain ⟨o, horder', -⟩ := Cache.getOrder_spec (hsize.trans (by decide))
    rw [horder, Option.some.injEq, Prod.mk.injEq] at horder'
    obtain ⟨rfl, hnum⟩ := horder'
    rw [hnum]
    exact Cache.even_iff hsize (hnum ▸ horder)
  intro q hq
  rw [← heven]
  cases h.events_slot hc hok hq with
  | inl hslot => exact h.whole.slot_aligned hcm ho h8 hslot
  | inr hnew =>
    obtain ⟨s', V', h', hc', hfix, hslot⟩ := hnew
    obtain ⟨hcm', ho', -⟩ := h'.user c hc'
    have hsize' : (s'.kmem.cache c).slotSize = (s.kmem.cache c).slotSize :=
      (congrArg Cache.slotSize hfix :)
    have hnum : (s'.kmem.cache c).objNum = (s.kmem.cache c).objNum :=
      (congrArg Cache.objNum hfix :)
    rw [← hnum]
    exact h'.whole.slot_aligned hcm' ho' (hsize' ▸ h8) hslot

/-- 52 slots of 72 bytes. -/
theorem aligned_iff_72 : ∃ k s s₂ p,
    kmem_init Buddy.heap128 12 Buddy.heap128.startAddr 4096 = some k ∧
    Run Ok SlabClient.step (boot k) [.create 72 none none] s ∧
    s.step (.alloc 2147554976) = some s₂ ∧ s₂.live = [(2147554976, p)] ∧ 8 ∣ p := by
  have h : ((kmem_init Buddy.heap128 12 Buddy.heap128.startAddr 4096).bind fun k =>
      (SlabClient.step (boot k) (.create 72 none none)).bind fun s =>
      (kmem_cache_alloc s.kmem 2147554976).bind fun r => r.1.bind fun _ =>
        if 2147554976 ∈ s.handles ∧ (s.kmem.cache 2147554976).slotSize = 72 ∧ s.live = []
          then some () else none) = some () := by
    decide +kernel
  obtain ⟨k, hk, h⟩ := Option.bind_eq_some_iff.1 h
  obtain ⟨s, h₁, h⟩ := Option.bind_eq_some_iff.1 h
  obtain ⟨r, h₂, h⟩ := Option.bind_eq_some_iff.1 h
  obtain ⟨p, hp, h⟩ := Option.bind_eq_some_iff.1 h
  obtain ⟨⟨hc, hsize, hlive⟩, -⟩ := Option.ite_none_right_eq_some.1 h
  have hrun : Run Ok SlabClient.step (boot k) [.create 72 none none] s :=
    .cons ⟨by decide, by decide⟩ h₁ .nil
  have hstep : s.step (.alloc 2147554976) =
      some { s with kmem := r.2, live := [(2147554976, p)] } := by
    simp only [step, h₂, hp, hlive, Option.map_some, Option.toList_some, List.map_cons,
      List.map_nil, List.append_nil]
  have hok : s.Ok (.alloc 2147554976) := hc
  have h8 : 8 ∣ (s.kmem.cache 2147554976).slotSize := by
    rw [hsize]
    decide
  refine ⟨k, s, _, p, hk, hrun, hstep, rfl, ?_⟩
  apply (aligned_iff hk hrun hc h8 (.inl hok) (p, .given) ?_).2
  · rw [hsize]
    decide
  rw [events, if_pos rfl, h₂, Option.elim_some, hp]
  exact List.mem_append_right _ (.head _)

/-- 143 slots of the size of `KernelSem`. -/
theorem aligned_fails : ∃ k s s₂ p,
    kmem_init Buddy.heap128 12 Buddy.heap128.startAddr 4096 = some k ∧
    Run Ok SlabClient.step (boot k) [.create 24 none none] s ∧
    8 ∣ (s.kmem.cache 2147554976).slotSize ∧
    s.step (.alloc 2147554976) = some s₂ ∧ s₂.live = [(2147554976, p)] ∧ ¬ 8 ∣ p := by
  have h : ((kmem_init Buddy.heap128 12 Buddy.heap128.startAddr 4096).bind fun k =>
      (SlabClient.step (boot k) (.create 24 none none)).bind fun s =>
      (s.step (.alloc 2147554976)).bind fun s₂ =>
        if 8 ∣ (s.kmem.cache 2147554976).slotSize ∧ s₂.live = [(2147554976, 2147558020)]
          then some () else none) = some () := by
    decide +kernel
  obtain ⟨k, hk, h⟩ := Option.bind_eq_some_iff.1 h
  obtain ⟨s, h₁, h⟩ := Option.bind_eq_some_iff.1 h
  obtain ⟨s₂, h₂, h⟩ := Option.bind_eq_some_iff.1 h
  obtain ⟨⟨h8, hlive⟩, -⟩ := Option.ite_none_right_eq_some.1 h
  exact ⟨k, s, s₂, _, hk, .cons ⟨by decide, by decide⟩ h₁ .nil, h8, h₂, hlive, by decide⟩

end SlabClient

end SlabKernel
