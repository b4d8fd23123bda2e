import SlabKernel.Slab.Sharing

/-!
# Slabs of buffers and their descriptors

The header of a slab of buffers is an object of the descriptor cache of its size class. In a run
every live descriptor heads a slab of the class, and conversely (`Matched`), as long as no request
finds a descriptor and then no block: `createBufferSlab` returns without giving the descriptor back.
Such a request ends the match, and no other one does (`SharedClient.Inv.kmalloc_matched`).
-/

namespace SlabKernel

open Function (update update_self update_of_ne)
open PtrList CachePool Runs

variable {k k' : Kmem} {V V' : View} {extra extra' : List (Nat × Nat)} {c d i p size : Nat}
  {S : Nat → Prop}

/-! ## What a state determines -/

namespace Kmem.Inv

/-- The slabs of a cache do not depend on the view. -/
theorem lists_eq (h : k.Inv V extra) (h' : k.Inv V' extra') (hc : c ∈ V.caches)
    (hc' : c ∈ V'.caches) : V.lists c = V'.lists c := by
  funext g
  exact ((h.reps c hc).shelves.lists g).unique ((h'.reps c hc').shelves.lists g)

theorem slabs_eq (h : k.Inv V extra) (h' : k.Inv V' extra') (hc : c ∈ V.caches)
    (hc' : c ∈ V'.caches) : V.slabs c = V'.slabs c :=
  congrArg slabsOf (h.lists_eq h' hc hc')

/-- Nor do its live objects. -/
theorem live_of_live (h : k.Inv V extra) (h' : k.Inv V' extra') (hc : c ∈ V.caches)
    (hc' : c ∈ V'.caches) (hl : Live k V c p) : Live k V' c p := by
  obtain ⟨s, j, hslot, hj⟩ := hl
  obtain ⟨g, hg⟩ := mem_slabsOf.1 hslot.slab
  have hg' : s ∈ V'.lists c g := h.lists_eq h' hc hc' ▸ hg
  have hchain : V.chain s = V'.chain s :=
    Linked.unique ((h.reps c hc).filled g s hg).chain ((h'.reps c hc').filled g s hg').chain
  exact ⟨s, j, ⟨mem_slabsOf.2 ⟨g, hg'⟩, hslot.lt, hslot.addr⟩, hchain ▸ hj⟩

end Kmem.Inv

theorem Descriptor.view (h : k.Whole V extra) (h' : k.Whole V' extra') (hp : Descriptor k V i p) :
    Descriptor k V' i p := by
  obtain ⟨d, hd, hl⟩ := hp
  exact ⟨d, hd, h.live_of_live h'.toInv (h.descriptors i d hd) (h'.descriptors i d hd) hl⟩

theorem BufferSlab.view (h : k.Whole V extra) (h' : k.Whole V' extra') (hp : BufferSlab k V i p) :
    BufferSlab k V' i p := by
  obtain ⟨c, hc, hs⟩ := hp
  exact ⟨c, hc, h.slabs_eq h'.toInv (h.buffers i c hc) (h'.buffers i c hc) ▸ hs⟩

/-- The descriptors stay when their caches do. -/
theorem descriptor_frame (hf : Frame k k' V V' S) (hdescs : k'.memBuffSlabs = k.memBuffSlabs)
    (h : ∀ i d, k.memBuffSlabs i = some d → d ∈ V.caches ∧ ¬ S d) :
    Descriptor k' V' i p ↔ Descriptor k V i p := by
  unfold Descriptor
  rw [hdescs]
  exact exists_congr fun d => and_congr_right fun hd => hf.live (h i d hd).1 (h i d hd).2

theorem bufferSlab_frame (hf : Frame k k' V V' S) (hbufs : k'.memoryBuffers = k.memoryBuffers)
    (h : ∀ i c, k.memoryBuffers i = some c → c ∈ V.caches ∧ ¬ S c) :
    BufferSlab k' V' i p ↔ BufferSlab k V i p := by
  unfold BufferSlab
  rw [hbufs]
  refine exists_congr fun c => and_congr_right fun hc => ?_
  rw [hf.slabs (h i c hc).1 (h i c hc).2]

/-- The live descriptors are the headers of the slabs of buffers. -/
def Matched (k : Kmem) (V : View) : Prop := ∀ i p, Descriptor k V i p ↔ BufferSlab k V i p

theorem Matched.view (hm : Matched k V) (h : k.Whole V extra) (h' : k.Whole V' extra') :
    Matched k V' :=
  fun i p => ⟨fun hd => ((hm i p).1 (hd.view h' h)).view h h',
    fun hs => ((hm i p).2 (hs.view h' h)).view h h'⟩

/-- The request finds a descriptor for a new slab, but no block. -/
def Kmem.Starves (k : Kmem) (size : Nat) : Prop :=
  minBuffSize ≤ size ∧ size ≤ maxBuffSize ∧ ∃ k₁ c, k.readied size = some k₁ ∧
    k₁.memoryBuffers (getPowerOfTwo size) = some c ∧ k₁.Starved c

theorem Kmem.starves_iff {k₁ : Kmem} (hsize : minBuffSize ≤ size) (hsize' : size ≤ maxBuffSize)
    (hk : k.readied size = some k₁) (hc : k₁.memoryBuffers (getPowerOfTwo size) = some c) :
    k.Starves size ↔ k₁.Starved c := by
  unfold Kmem.Starves
  simp only [hsize, hsize', hk, hc, true_and, Option.some.injEq, exists_and_left, exists_eq_left']

/-- A new slab has its descriptor; a descriptor without a slab has none. -/
theorem Supplied.matched {starved : Prop} {D D' S S' : Nat → Prop} {r : Ptr}
    (h : Supplied starved D D' S S' r) (hm : ∀ p, D p ↔ S p) :
    (∀ p, D' p ↔ S' p) ↔ ¬ starved := by
  cases h with
  | same hn hd hs =>
    refine iff_of_true (fun p => ?_) hn
    rw [hd, hs, hm]
  | slab s hn _ hd hs =>
    refine iff_of_true (fun p => ?_) hn
    rw [hd, hs, hm]
  | leak s hst hnew hd hs =>
    refine iff_of_false (fun h => hnew ?_) (not_not_intro hst)
    rw [hm, ← hs, ← h, hd]
    exact .inr rfl

/-- A starved request fails. -/
theorem Supplied.served {starved : Prop} {D D' S S' : Nat → Prop} {r : Ptr}
    (h : Supplied starved D D' S S' r) (hr : r ≠ none) : ¬ starved := by
  cases h with
  | same hn _ _ => exact hn
  | slab s hn _ _ _ => exact hn
  | leak s _ _ _ _ => exact absurd rfl hr

/-- A failing request keeps the descriptors unless it is starved. -/
theorem Supplied.kept {starved : Prop} {D D' S S' : Nat → Prop}
    (h : Supplied starved D D' S S' none) : (∀ p, D' p ↔ D p) ↔ ¬ starved := by
  cases h with
  | same hn hd _ => exact iff_of_true hd hn
  | leak s hst hnew hd _ =>
    refine iff_of_false (fun h => hnew ?_) (not_not_intro hst)
    rw [← h, hd]
    exact .inr rfl

/-! ## The clients' calls -/

namespace SlabClient

variable {s s' : SlabClient}

/-- The caches of the size classes are none of the clients'. -/
theorem Inv.class_not (h : s.Inv V extra) (i : Nat) :
    (∀ c, s.kmem.memoryBuffers i = some c → c ∈ V.caches ∧ c ∉ s.handles) ∧
    ∀ d, s.kmem.memBuffSlabs i = some d → d ∈ V.caches ∧ d ∉ s.handles :=
  ⟨fun c hc => ⟨h.whole.buffers i c hc, fun hm => h.not_class hm i hc⟩,
    fun d hd => ⟨h.whole.descriptors i d hd, fun hm => (h.user d hm).2.2 i hd⟩⟩

/-- A call that is no request changes only caches of the clients, or it gives a buffer back. -/
theorem Inv.step_frame {op : SlabCall} (h : s.Inv V extra) (hok : s.Legal op)
    (hop : ∀ size, op ≠ .kmalloc size) (hs : s.step op = some s') :
    ∃ V' S, s'.Inv V' extra ∧ Frame s.kmem s'.kmem V V' S ∧
      s'.kmem.memoryBuffers = s.kmem.memoryBuffers ∧ s'.kmem.memBuffSlabs = s.kmem.memBuffSlabs ∧
      ∀ c, S c → c ∈ s.handles ∨
        (∃ i, s.kmem.memoryBuffers i = some c) ∧ (V'.slabs c).Perm (V.slabs c) := by
  obtain ⟨V', hi, hk⟩ := h.step hok hs
  obtain ⟨hbufs, hdescs⟩ := hk.tables hop
  refine ⟨V', _, hi, hk.frame, hbufs, hdescs, fun c hc => ?_⟩
  rcases hok with hok | ⟨size, rfl, -⟩
  swap
  · exact absurd rfl (hop size)
  cases op with
  | create size ctor dtor => exact hc.elim
  | alloc d => exact .inl (hc ▸ hok)
  | free d p => exact .inl (hc ▸ hok.1)
  | destroy d => exact .inl (hc ▸ hok)
  | shrink d => exact .inl (hc ▸ hok.1)
  | kmalloc size => exact absurd rfl (hop size)
  | kfree p =>
    obtain ⟨size, -, hb⟩ := id hc
    exact .inr ⟨⟨_, hb⟩, hk.slabs p rfl c hc⟩

/-- Calls that are no requests keep the descriptors and the slabs. -/
theorem Inv.step_matched {op : SlabCall} (h : s.Inv V extra) (hm : Matched s.kmem V)
    (hok : s.Legal op) (hop : ∀ size, op ≠ .kmalloc size) (hs : s.step op = some s') :
    ∃ V', s'.Inv V' extra ∧ Matched s'.kmem V' := by
  obtain ⟨V', S, hi, hf, hbufs, hdescs, hS⟩ := h.step_frame hok hop hs
  refine ⟨V', hi, fun i p => ?_⟩
  have hd : Descriptor s'.kmem V' i p ↔ Descriptor s.kmem V i p := by
    refine descriptor_frame hf hdescs fun j d hd => ?_
    obtain ⟨hdm, hdh⟩ := (h.class_not j).2 d hd
    refine ⟨hdm, fun hSd => ?_⟩
    rcases hS d hSd with hd' | ⟨⟨n, hn⟩, -⟩
    · exact hdh hd'
    · exact h.whole.classes.not_descriptor hn hdm hd
  have hb : BufferSlab s'.kmem V' i p ↔ BufferSlab s.kmem V i p := by
    unfold BufferSlab
    rw [hbufs]
    refine exists_congr fun c => and_congr_right fun hc => ?_
    obtain ⟨hcm, hch⟩ := (h.class_not i).1 c hc
    by_cases hSc : S c
    · rcases hS c hSc with hc' | ⟨-, hperm⟩
      · exact absurd hc' hch
      · exact hperm.mem_iff
    · rw [hf.slabs hcm hSc]
  rw [hd, hb]
  exact hm i p

/-- A request keeps the match iff it is not starved; a failing one then keeps the descriptors. -/
theorem Inv.kmalloc_matched (h : s.Inv V extra) (hm : Matched s.kmem V)
    (hok : s.Legal (.kmalloc size)) (hs : s.step (.kmalloc size) = some s') :
    ∃ V', s'.Inv V' extra ∧ (Matched s'.kmem V' ↔ ¬ s.kmem.Starves size) ∧
      (s'.buffers = s.buffers → ((∀ i p, Descriptor s'.kmem V' i p ↔ Descriptor s.kmem V i p) ↔
        ¬ s.kmem.Starves size)) := by
  by_cases hr : size < minBuffSize ∨ size > maxBuffSize
  · rw [kmalloc_range hr, Option.some.injEq] at hs
    subst hs
    have hn : ¬ s.kmem.Starves size := fun hst => by
      obtain ⟨h1, h2, -⟩ := hst
      omega
    exact ⟨V, h, iff_of_true hm hn, fun _ => iff_of_true (fun _ _ => Iff.rfl) hn⟩
  obtain ⟨hsize, hsize', hfit⟩ := hok.kmalloc hr
  rcases h.kmalloc hsize hsize' hfit with
    ⟨-, -, he⟩ |
    ⟨r, k', V', c, d, he, hi, -, hf, -, hbufs, hd, hcase, -, hdescs, k₁, hk₁, hc₁, -, hsup⟩
  · simp only [SlabClient.step, he, Option.map_none, reduceCtorEq] at hs
  simp only [SlabClient.step, he, Option.map_some, Option.some.injEq] at hs
  subst hs
  rw [Kmem.starves_iff hsize hsize' hk₁ hc₁]
  -- the other classes
  have hdi : ∀ j, j ≠ getPowerOfTwo size → ∀ p,
      Descriptor k' V' j p ↔ Descriptor s.kmem V j p := by
    intro j hj p
    unfold Descriptor
    rw [hdescs]
    refine exists_congr fun d' => and_congr_right fun hd' => hf.live (h.whole.descriptors j d' hd') ?_
    intro hor
    rcases hor with hdc | hdd
    · subst hdc
      rcases hcase with ⟨hc, -⟩ | ⟨-, hn, -⟩
      · exact h.whole.classes.not_descriptor hc (h.whole.buffers _ d' hc) hd'
      · exact hn (h.whole.descriptors j d' hd')
    · exact hj (h.apart j _ d' hd' (hdd ▸ hd))
  have hbi : ∀ j, j ≠ getPowerOfTwo size → ∀ p,
      BufferSlab k' V' j p ↔ BufferSlab s.kmem V j p := by
    intro j hj p
    unfold BufferSlab
    rw [hbufs, update_of_ne hj]
    refine exists_congr fun c' => and_congr_right fun hc' => ?_
    have hcm' := h.whole.buffers j c' hc'
    rw [hf.slabs hcm' fun hor => ?_]
    rcases hor with hcc | hcd
    · subst hcc
      rcases hcase with ⟨hc, -⟩ | ⟨-, hn, -⟩
      · exact hj (h.whole.classes.buffer_inj hc' hc hcm')
      · exact hn hcm'
    · exact h.whole.classes.not_descriptor hc' hcm' (hcd ▸ hd)
  refine ⟨V', hi, ?_, fun hb => ?_⟩
  · rw [← hsup.matched (hm _)]
    constructor
    · exact fun h p => h _ p
    · intro h j p
      by_cases hj : j = getPowerOfTwo size
      · exact hj ▸ h p
      · rw [hdi j hj, hbi j hj]
        exact hm j p
  · cases r with
    | some q =>
      have := congrArg List.length hb
      simp at this
    | none =>
      rw [← hsup.kept]
      constructor
      · exact fun h p => h _ p
      · intro h j p
        by_cases hj : j = getPowerOfTwo size
        · exact hj ▸ h p
        · exact hdi j hj p

/-- A request that gets a buffer is not starved. -/
theorem Inv.kmalloc_served (h : s.Inv V extra) (hok : s.Ok (.kmalloc size))
    (hs : s.step (.kmalloc size) = some s') (hb : s'.buffers ≠ s.buffers) :
    ¬ s.kmem.Starves size := by
  rcases h.kmalloc hok.1 hok.2.1 hok.2.2 with
    ⟨-, -, he⟩ | ⟨r, k', V', c, d, he, -, -, -, -, -, -, -, -, -, k₁, hk₁, hc₁, -, hsup⟩
  · simp only [SlabClient.step, he, Option.map_none, reduceCtorEq] at hs
  simp only [SlabClient.step, he, Option.map_some, Option.some.injEq] at hs
  subst hs
  rw [Kmem.starves_iff hok.1 hok.2.1 hk₁ hc₁]
  refine hsup.served fun hr => hb ?_
  rw [hr]
  rfl

end SlabClient

/-! ## Runs -/

namespace SharedClient

variable {s s' : SharedClient}

/-- In the view of `s` the live descriptors are the headers of the slabs of buffers. -/
def Matched (s : SharedClient) : Prop := ∃ V, s.Inv V ∧ SlabKernel.Matched s.client.kmem V

/-- The step is a request that finds a descriptor, but no block. -/
def Starving (s : SharedClient) : SharedCall → Prop
  | .call (.kmalloc size) => s.client.kmem.Starves size
  | _ => False

/-- A request keeps the match iff it is not starved. -/
theorem Matched.kmalloc (hm : s.Matched) (hok : s.Ok (.call (.kmalloc size)))
    (hs : s.step (.call (.kmalloc size)) = some s') :
    (s'.Matched ↔ ¬ s.client.kmem.Starves size) ∧
      (s'.client.buffers = s.client.buffers → ∀ V V', s.Inv V → s'.Inv V' →
        ((∀ i p, Descriptor s'.client.kmem V' i p ↔ Descriptor s.client.kmem V i p) ↔
          ¬ s.client.kmem.Starves size)) := by
  obtain ⟨V, h, hm⟩ := hm
  unfold SharedClient.step at hs
  obtain ⟨client, he, rfl⟩ := Option.map_eq_some_iff.1 hs
  obtain ⟨V', hi, hiff, hkept⟩ := h.kmalloc_matched hm hok he
  refine ⟨⟨fun hm' => ?_, fun hn => ⟨V', hi, hiff.2 hn⟩⟩, fun hb W W' hW hW' => ?_⟩
  · obtain ⟨W, hW, hmW⟩ := hm'
    exact hiff.1 (hmW.view hW.whole hi.whole)
  · rw [← hkept hb]
    refine forall₂_congr fun i p => ?_
    have h1 : Descriptor s.client.kmem W i p ↔ Descriptor s.client.kmem V i p :=
      ⟨fun hd => hd.view hW.whole h.whole, fun hd => hd.view h.whole hW.whole⟩
    have h2 : Descriptor client.kmem W' i p ↔ Descriptor client.kmem V' i p :=
      ⟨fun hd => hd.view hW'.whole hi.whole, fun hd => hd.view hi.whole hW'.whole⟩
    exact iff_congr h2 h1

theorem Matched.step {op : SharedCall} (hm : s.Matched) (hok : s.Ok op) (hn : ¬ s.Starving op)
    (hs : SharedClient.step s op = some s') : s'.Matched := by
  by_cases hop : ∀ c, op ≠ .call c
  · obtain ⟨V, h, hm⟩ := hm
    obtain ⟨b, others, he, hinv⟩ := h.other hok hop
    rw [he, Option.some.injEq] at hs
    subst hs
    have hf : Frame s.client.kmem { s.client.kmem with buddy := b } V V fun _ => False :=
      ⟨fun _ hc _ => hc, fun _ _ _ => rfl, fun _ _ _ => rfl, fun _ _ _ _ _ => rfl,
        fun _ _ _ _ _ => rfl⟩
    refine ⟨V, hinv, fun i p => ?_⟩
    have hd := descriptor_frame (i := i) (p := p) hf rfl fun j d hd =>
      ⟨h.whole.descriptors j d hd, not_false⟩
    have hb := bufferSlab_frame (i := i) (p := p) hf rfl fun j c hc =>
      ⟨h.whole.buffers j c hc, not_false⟩
    exact hd.trans ((hm i p).trans hb.symm)
  · simp only [not_forall, not_not] at hop
    obtain ⟨c, rfl⟩ := hop
    by_cases hc : ∃ size, c = .kmalloc size
    · obtain ⟨size, rfl⟩ := hc
      exact (hm.kmalloc hok hs).1.2 hn
    · simp only [not_exists] at hc
      obtain ⟨V, h, hm⟩ := hm
      unfold SharedClient.step at hs
      obtain ⟨client, he, rfl⟩ := Option.map_eq_some_iff.1 hs
      exact h.step_matched hm hok hc he

/-- A request that gets a buffer is not starved. -/
theorem kmalloc_served (h : ∃ V, s.Inv V) (hok : s.Ok (.call (.kmalloc size)))
    (hr : ¬ (size < minBuffSize ∨ size > maxBuffSize))
    (hs : s.step (.call (.kmalloc size)) = some s') (hb : s'.client.buffers ≠ s.client.buffers) :
    ¬ s.Starving (.call (.kmalloc size)) := by
  obtain ⟨V, h⟩ := h
  unfold SharedClient.step at hs
  obtain ⟨client, he, rfl⟩ := Option.map_eq_some_iff.1 hs
  exact SlabClient.Inv.kmalloc_served h (SlabClient.Legal.kmalloc hok hr) he hb

/-- After `kmem_init` there are neither descriptors nor slabs. -/
theorem boot_matched {heap : HeapBounds} {space : Nat} {blockNum : Int}
    (h : kmem_init heap 12 space blockNum = some k) : (boot k).Matched := by
  obtain ⟨V, hV, hi⟩ := SlabClient.boot_booted h
  refine ⟨V, hi, fun i p => iff_of_false (fun hd => ?_) fun hb => ?_⟩
  · obtain ⟨d, hd, s, j, hslot, -⟩ := hd
    have := hslot.slab
    rw [hV.empty d (hi.whole.descriptors i d hd)] at this
    cases this
  · obtain ⟨c, hc, -⟩ := hb
    have := hV.noBuffer i
    rw [show k.memoryBuffers i = some c from hc] at this
    cases this

theorem run_matched {ops : List SharedCall} (h : s.Matched)
    (hrun : Run (fun s op => s.Ok op ∧ ¬ s.Starving op) SharedClient.step s ops s') :
    s'.Matched := by
  refine hrun.inv SharedClient.Matched ?_ h
  intro s₁ op s₂ h₁ hok hs
  exact h₁.step hok.1 hok.2 hs

/-- **Descriptors.** In every state of a run without a starved request the live descriptors of a
class are the slabs of the class, each on one of its lists. Of the next requests exactly those that
are not starved keep that, and exactly those keep the descriptors when they fail. -/
theorem descriptors_matched {heap : HeapBounds} {space : Nat} {blockNum : Int}
    {ops : List SharedCall} (hinit : kmem_init heap 12 space blockNum = some k)
    (hrun : Run (fun s op => s.Ok op ∧ ¬ s.Starving op) SharedClient.step (boot k) ops s) :
    (∃ V, s.Inv V ∧ ∀ i p, Descriptor s.client.kmem V i p ↔
      ∃ c, s.client.kmem.memoryBuffers i = some c ∧ ∃! g, p ∈ V.lists c g) ∧
    ∀ size s', s.Ok (.call (.kmalloc size)) → s.step (.call (.kmalloc size)) = some s' →
      (s'.Matched ↔ ¬ s.client.kmem.Starves size) ∧
      (s'.client.buffers = s.client.buffers → ∀ V V', s.Inv V → s'.Inv V' →
        ((∀ i p, Descriptor s'.client.kmem V' i p ↔ Descriptor s.client.kmem V i p) ↔
          ¬ s.client.kmem.Starves size)) := by
  have hm := run_matched (boot_matched hinit) hrun
  refine ⟨?_, fun size s' hok hs => hm.kmalloc hok hs⟩
  obtain ⟨V, h, hm⟩ := hm
  refine ⟨V, h, fun i p => (hm i p).trans ?_⟩
  refine exists_congr fun c => and_congr_right fun hc => ?_
  have hdisj := (h.whole.reps c (h.whole.buffers i c hc)).shelves.disjoint
  constructor
  · intro hp
    obtain ⟨g, hg⟩ := mem_slabsOf.1 hp
    exact ⟨g, hg, fun g' hg' => hdisj g' g p hg' hg⟩
  · intro hp
    obtain ⟨g, hg, -⟩ := hp
    exact mem_slabsOf.2 ⟨g, hg⟩

/-- Two classes are served, one of them after others have taken eight pages; both requests use up a
descriptor and a block. -/
theorem descriptors_matched_heap128 : ∃ k s,
    kmem_init Buddy.heap128 12 Buddy.heap128.startAddr 4096 = some k ∧
    Run (fun s op => s.Ok op ∧ ¬ s.Starving op) SharedClient.step (boot k)
      [.call (.kmalloc 32), .take 3, .call (.kmalloc 8192)] s ∧ s.client.buffers.length = 2 ∧
    ∃ V, s.Inv V ∧ ∀ i p, Descriptor s.client.kmem V i p ↔
      ∃ c, s.client.kmem.memoryBuffers i = some c ∧ ∃! g, p ∈ V.lists c g := by
  have h : ((kmem_init Buddy.heap128 12 Buddy.heap128.startAddr 4096).bind fun k =>
      (SharedClient.step (boot k) (.call (.kmalloc 32))).bind fun s₁ =>
      (s₁.step (.take 3)).bind fun s₂ => (s₂.step (.call (.kmalloc 8192))).bind fun s₃ =>
        if s₁.client.buffers.length = 1 ∧ s₂.client.buffers.length = 1 ∧
          s₃.client.buffers.length = 2 then some () else none) = some () := by
    decide +kernel
  obtain ⟨k, hk, h⟩ := Option.bind_eq_some_iff.1 h
  obtain ⟨s₁, hs₁, h⟩ := Option.bind_eq_some_iff.1 h
  obtain ⟨s₂, hs₂, h⟩ := Option.bind_eq_some_iff.1 h
  obtain ⟨s₃, hs₃, h⟩ := Option.bind_eq_some_iff.1 h
  obtain ⟨⟨hb₁, hb₂, hb₃⟩, -⟩ := Option.ite_none_right_eq_some.1 h
  have hok : ∀ s : SharedClient, s.Ok (.call (.kmalloc 32)) ∧ s.Ok (.call (.kmalloc 8192)) :=
    fun s => ⟨SlabClient.Legal.pow s.client 5, SlabClient.Legal.pow s.client 13⟩
  have hrun₂ : Run Ok SharedClient.step (boot k) [.call (.kmalloc 32), .take 3] s₂ :=
    .cons (hok _).1 hs₁ (.cons trivial hs₂ .nil)
  have hn₁ := kmalloc_served (boot_inv hk) (hok _).1 (by decide) hs₁ fun he => by
    rw [he] at hb₁
    cases hb₁
  have hn₃ := kmalloc_served (run_inv (boot_inv hk) hrun₂) (hok _).2 (by decide) hs₃ fun he => by
    rw [he, hb₂] at hb₃
    cases hb₃
  have hrun : Run (fun s op => s.Ok op ∧ ¬ s.Starving op) SharedClient.step (boot k)
      [.call (.kmalloc 32), .take 3, .call (.kmalloc 8192)] s₃ :=
    .cons ⟨(hok _).1, hn₁⟩ hs₁ (.cons ⟨trivial, not_false⟩ hs₂ (.cons ⟨(hok _).2, hn₃⟩ hs₃ .nil))
  exact ⟨k, s₃, hk, hrun, hb₃, (descriptors_matched hk hrun).1⟩

/-- Others leave one page. A request takes it for the descriptor and fails for want of a block; the
descriptor stays live without a slab. -/
theorem descriptors_matched_fails : ∃ k s s',
    kmem_init Buddy.heap128 12 Buddy.heap128.startAddr 4096 = some k ∧
    Run Ok SharedClient.step (boot k)
      ([11, 10, 9, 8, 7, 6, 5, 4, 3, 2, 1].map .take) s ∧
    s.Ok (.call (.kmalloc 32)) ∧ s.step (.call (.kmalloc 32)) = some s' ∧
    s'.client.buffers = s.client.buffers ∧ ¬ s'.Matched := by
  have h : ((kmem_init Buddy.heap128 12 Buddy.heap128.startAddr 4096).bind fun k =>
      (([11, 10, 9, 8, 7, 6, 5, 4, 3, 2, 1].map SharedCall.take).foldlM SharedClient.step
        (boot k)).bind fun s => (s.step (.call (.kmalloc 32))).bind fun s' =>
      (s.client.kmem.readied 32).bind fun k₁ =>
      (k₁.memoryBuffers (getPowerOfTwo 32)).bind fun c =>
      (k₁.memBuffSlabs (getPowerOfTwo (k₁.cache c).slotSize)).bind fun d =>
        if s'.client.buffers = s.client.buffers ∧
          ((k₁.cache c).slabsPartial = none ∧ (k₁.cache c).slabsFree = none) ∧
          (k₁.buddy.alloc (k₁.cache d).slabOrder).1 ≠ none ∧
          ((k₁.buddyAfter d).alloc (k₁.cache c).slabOrder).1 = none
        then some () else none) = some () := by
    decide +kernel
  obtain ⟨k, hk, h⟩ := Option.bind_eq_some_iff.1 h
  obtain ⟨s, hs, h⟩ := Option.bind_eq_some_iff.1 h
  obtain ⟨s', hs', h⟩ := Option.bind_eq_some_iff.1 h
  obtain ⟨k₁, hk₁, h⟩ := Option.bind_eq_some_iff.1 h
  obtain ⟨c, hc, h⟩ := Option.bind_eq_some_iff.1 h
  obtain ⟨d, hd, h⟩ := Option.bind_eq_some_iff.1 h
  obtain ⟨⟨hbuf, hnew, hpage, hblock⟩, -⟩ := Option.ite_none_right_eq_some.1 h
  have htake : ∀ op ∈ [11, 10, 9, 8, 7, 6, 5, 4, 3, 2, 1].map SharedCall.take, ∃ o, op = .take o :=
    fun op hop => by
      obtain ⟨o, -, rfl⟩ := List.mem_map.1 hop
      exact ⟨o, rfl⟩
  have hok : s.Ok (.call (.kmalloc 32)) := SlabClient.Legal.pow s.client 5
  have hm : s.Matched := by
    refine run_matched (boot_matched hk) (.of_foldlM (fun op hop t => ?_) hs)
    obtain ⟨o, rfl⟩ := htake op hop
    exact ⟨trivial, not_false⟩
  refine ⟨k, s, s', hk, .of_foldlM (fun op hop t => ?_) hs, hok, hs', hbuf, fun hm' => ?_⟩
  · obtain ⟨o, rfl⟩ := htake op hop
    exact trivial
  · exact (hm.kmalloc hok hs').1.1 hm' ⟨by decide, by decide, k₁, c, hk₁, hc, hnew, d, hd,
      fun _ => hpage, hblock⟩

end SharedClient

end SlabKernel
