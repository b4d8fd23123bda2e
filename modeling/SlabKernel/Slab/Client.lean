import SlabKernel.Lib.Run
import SlabKernel.Slab.Retire

/-!
# Clients of the slab allocator

The clients' view is a record of their caches, live objects and live buffers. The invariant
`SlabClient.Inv` says that this record is right: the live objects of the clients' caches and the live
buffers are those of the allocator, and every other cache belongs to a size class. One lemma for each
call keeps it (`Inv.create`, `Inv.alloc`, …), hence every run does (`SlabClient.run_inv`).

Admitted are the calls of a correct client: an object is freed while it is live, though maybe to a
wrong cache. `kmem_cache_shrink` is admitted when it gives no slab back, and the first request of a size
class when it lays the class out right (see `Slab/Shrinking.lean` and `Slab/Requests.lean` for what the
others do). A creation may fail and the clients go on; it leaves the last record off the list
(`Slab/CachePool.lean`), so that a later `kmem_cache_destroy` may miss it. Runs that are to destroy
caches ask that no creation fails (`Fed`).
-/

namespace SlabKernel

open Function (update update_self update_of_ne update_eq_self)
open PtrList CachePool Runs

/-- The allocator and what its clients have: caches, objects with their caches, and buffers with the
sizes they asked for. -/
structure SlabClient where
  kmem : Kmem
  handles : List Nat
  live : List (Nat × Nat)
  buffers : List (Nat × Nat)

/-- A call of a client. -/
inductive SlabCall
  | create (size : Nat) (ctor dtor : Ptr)
  | alloc (cachep : Nat)
  | free (cachep objp : Nat)
  | destroy (cachep : Nat)
  | shrink (cachep : Nat)
  | kmalloc (size : Nat)
  | kfree (objp : Nat)

/-- What no call changes of a cache after its creation. -/
def Cache.shape (C : Cache) : Cache := C.fixed.unlinked

theorem Cache.shape_of_fixed {C C' : Cache} (h : C'.fixed = C.fixed) : C'.shape = C.shape :=
  congrArg Cache.unlinked h

theorem Cache.shape_of_unlinked {C C' : Cache} (h : C'.unlinked = C.unlinked) :
    C'.shape = C.shape :=
  (congrArg Cache.shape h :)

namespace SlabClient

/-- A call executed by the allocator, the record kept up. -/
def step (s : SlabClient) : SlabCall → Option SlabClient
  | .create size ctor dtor => (kmem_cache_create s.kmem size ctor dtor).map fun r =>
    { s with kmem := r.2, handles := s.handles ++ r.1.toList }
  | .alloc cachep => (kmem_cache_alloc s.kmem cachep).map fun r =>
    { s with kmem := r.2, live := (r.1.toList.map (cachep, ·)) ++ s.live }
  | .free cachep objp => (kmem_cache_free s.kmem cachep (some objp)).map fun k =>
    { s with kmem := k, live := s.live.erase (cachep, objp) }
  | .destroy cachep => (kmem_cache_destroy s.kmem (some cachep)).map fun k =>
    { s with kmem := k, handles := s.handles.erase cachep
             live := s.live.filter fun q => q.1 ≠ cachep }
  | .shrink cachep => (kmem_cache_shrink s.kmem cachep).map fun r => { s with kmem := r.2 }
  | .kmalloc size => (SlabKernel.kmalloc s.kmem size).map fun r =>
    { s with kmem := r.2, buffers := (r.1.toList.map (·, size)) ++ s.buffers }
  | .kfree objp => (SlabKernel.kfree s.kmem (some objp)).map fun k =>
    { s with kmem := k, buffers := s.buffers.filter fun q => q.1 ≠ objp }

/-- A cache that `kmem_cache_shrink` gives no slab of back. -/
def Unshrunk (k : Kmem) (c : Nat) : Prop := (k.cache c).shrink = 0 ∨ (k.cache c).slabsFree = none

instance (k : Kmem) (c : Nat) : Decidable (Unshrunk k c) := inferInstanceAs (Decidable (_ ∨ _))

/-- The calls of a correct client. A slab fits a block of the buddy allocator. -/
def Ok (s : SlabClient) : SlabCall → Prop
  | .create size _ _ => 1 ≤ size ∧ size + 76 ≤ 2 ^ 12 * blockSize
  | .alloc cachep => cachep ∈ s.handles
  | .free cachep objp => cachep ∈ s.handles ∧
    ∃ c, (c, objp) ∈ s.live ∧ (s.kmem.cache c).InPage
  | .destroy cachep => cachep ∈ s.handles
  | .shrink cachep => cachep ∈ s.handles ∧ Unshrunk s.kmem cachep
  | .kmalloc size => minBuffSize ≤ size ∧ size ≤ maxBuffSize ∧
    (s.kmem.memoryBuffers (getPowerOfTwo size) = none → FitsClass size)
  | .kfree objp => objp ∈ s.buffers.map Prod.fst

theorem ok_free_iff {s : SlabClient} {cachep objp : Nat} : s.Ok (.free cachep objp) ↔
    cachep ∈ s.handles ∧ ∃ q ∈ s.live, q.2 = objp ∧ (s.kmem.cache q.1).InPage := by
  refine and_congr_right fun _ => ⟨fun h => ?_, fun h => ?_⟩
  · obtain ⟨c, hl, hp⟩ := h
    exact ⟨(c, objp), hl, rfl, hp⟩
  · obtain ⟨⟨c, _⟩, hl, rfl, hp⟩ := h
    exact ⟨c, hl, hp⟩

instance (s : SlabClient) : ∀ op, Decidable (s.Ok op)
  | .create _ _ _ => inferInstanceAs (Decidable (_ ∧ _))
  | .alloc cachep => inferInstanceAs (Decidable (cachep ∈ s.handles))
  | .free _ _ => decidable_of_iff' _ ok_free_iff
  | .destroy cachep => inferInstanceAs (Decidable (cachep ∈ s.handles))
  | .shrink _ => inferInstanceAs (Decidable (_ ∧ _))
  | .kmalloc _ => inferInstanceAs (Decidable (_ ∧ _ ∧ (_ → _)))
  | .kfree objp => inferInstanceAs (Decidable (objp ∈ s.buffers.map Prod.fst))

/-- The calls of a correct client, and requests that no size class serves. -/
def Legal (s : SlabClient) (op : SlabCall) : Prop :=
  s.Ok op ∨ ∃ size, op = .kmalloc size ∧ (size < minBuffSize ∨ size > maxBuffSize)

/-- The call is no creation that fails. -/
def Fed (s : SlabClient) : SlabCall → Prop
  | .create _ _ _ => s.kmem.Available
  | _ => True

instance (s : SlabClient) : ∀ op, Decidable (s.Fed op)
  | .create _ _ _ => inferInstanceAs (Decidable s.kmem.Available)
  | .alloc _ | .free _ _ | .destroy _ | .shrink _ | .kmalloc _ | .kfree _ => .isTrue trivial

/-- The caches of the clients keep their shape; a new one has that of its creation. -/
def Shaped (s : SlabClient) (op : SlabCall) (s' : SlabClient) : Prop :=
  ∀ a ∈ s'.handles, a ∈ s.handles ∧ (s'.kmem.cache a).shape = (s.kmem.cache a).shape ∨
    ∃ size ctor dtor o, op = .create size ctor dtor ∧
      (s'.kmem.cache a).shape = (Cache.init size ctor dtor o (Cache.slotsOf size o)).shape ∧
      Cache.getOrder size = some (o, Cache.slotsOf size o)

/-! ## The invariant -/

/-- The record of the clients agrees with the view `V` of the allocator. -/
structure Inv (s : SlabClient) (V : View) (extra : List (Nat × Nat)) : Prop where
  whole : s.kmem.Whole V extra
  ready : ∀ i < bufferNum, s.kmem.memBuffSlabs i ≠ none
  apart : ∀ i j c, s.kmem.memBuffSlabs i = some c → s.kmem.memBuffSlabs j = some c → i = j
  caches : ∀ c ∈ V.caches, c ∈ s.handles ∨ (∃ i, s.kmem.memBuffSlabs i = some c) ∨
    ∃ i, s.kmem.memoryBuffers i = some c
  handles : s.handles.Nodup
  user : ∀ c ∈ s.handles, c ∈ V.caches ∧ (s.kmem.cache c).IsObject ∧
    ∀ i, s.kmem.memBuffSlabs i ≠ some c
  nodup : s.live.Nodup
  owner : ∀ q ∈ s.live, q.1 ∈ s.handles
  live : ∀ c ∈ s.handles, ∀ p, (c, p) ∈ s.live ↔ Live s.kmem V c p
  bufferNodup : (s.buffers.map Prod.fst).Nodup
  buffer : ∀ q ∈ s.buffers, minBuffSize ≤ q.2 ∧ q.2 ≤ maxBuffSize ∧
    LiveBuffer s.kmem V (getPowerOfTwo q.2) q.1
  recorded : ∀ i p, LiveBuffer s.kmem V i p → p ∈ s.buffers.map Prod.fst

variable {s s' : SlabClient} {V V' : View} {extra : List (Nat × Nat)} {c d p size : Nat}
  {k' : Kmem} {S : Nat → Prop}

namespace Inv

/-- A cache of a client is none of the size classes. -/
theorem not_class (h : s.Inv V extra) (hc : c ∈ s.handles) (i : Nat) :
    s.kmem.memoryBuffers i ≠ some c := fun hi => by
  obtain ⟨hcm, ho, -⟩ := h.user c hc
  exact absurd ((h.whole.classes.buffer i c hi hcm).2.type.symm.trans ho.type) (by decide)

/-- The buffers stay when their caches do. -/
theorem liveBuffer_frame {k : Kmem} {i : Nat} (hf : Frame k k' V V' S)
    (hbufs : k'.memoryBuffers = k.memoryBuffers)
    (h : ∀ i c, k.memoryBuffers i = some c → c ∈ V.caches ∧ ¬ S c) :
    LiveBuffer k' V' i p ↔ LiveBuffer k V i p := by
  unfold LiveBuffer
  rw [hbufs]
  exact exists_congr fun c => and_congr_right fun hc => hf.live (h i c hc).1 (h i c hc).2

/-! ## What a call leaves alone -/

theorem descs_frame {k : Kmem} (h : s.Inv V extra) (hdescs : k.memBuffSlabs = s.kmem.memBuffSlabs) :
    (∀ i < bufferNum, k.memBuffSlabs i ≠ none) ∧
    ∀ i j c, k.memBuffSlabs i = some c → k.memBuffSlabs j = some c → i = j := by
  rw [hdescs]
  exact ⟨h.ready, h.apart⟩

/-- A cache of a client that the call does not change. -/
theorem user_frame (h : s.Inv V extra) (hf : Frame s.kmem k' V V' S)
    (hdescs : k'.memBuffSlabs = s.kmem.memBuffSlabs) (hc : c ∈ s.handles) (hS : ¬ S c) :
    c ∈ V'.caches ∧ (k'.cache c).IsObject ∧ ∀ i, k'.memBuffSlabs i ≠ some c := by
  obtain ⟨hcm, ho, hd⟩ := h.user c hc
  rw [hdescs]
  exact ⟨hf.mem c hcm hS, ho.congr (congrArg Cache.layout (hf.cache c hcm hS) :), hd⟩

theorem live_frame (h : s.Inv V extra) (hf : Frame s.kmem k' V V' S) (hc : c ∈ s.handles)
    (hS : ¬ S c) : (c, p) ∈ s.live ↔ Live k' V' c p :=
  (h.live c hc p).trans (hf.live (h.user c hc).1 hS).symm

theorem buffer_frame (h : s.Inv V extra)
    (hlb : ∀ i p, LiveBuffer k' V' i p ↔ LiveBuffer s.kmem V i p) :
    (∀ q ∈ s.buffers, minBuffSize ≤ q.2 ∧ q.2 ≤ maxBuffSize ∧
      LiveBuffer k' V' (getPowerOfTwo q.2) q.1) ∧
    ∀ i p, LiveBuffer k' V' i p → p ∈ s.buffers.map Prod.fst := by
  refine ⟨fun q hq => ?_, fun i p hp => h.recorded i p ((hlb i p).1 hp)⟩
  rw [hlb]
  exact h.buffer q hq

/-! ## One cache of a client -/

/-- A call on the cache `c` of a client, after which its live objects are recorded right. -/
theorem served {live : List (Nat × Nat)} (h : s.Inv V extra) (hc : c ∈ s.handles)
    (hs : Served s.kmem k' V V' extra (· = c)) (hnd : live.Nodup)
    (hlive : ∀ q : Nat × Nat, q ∈ live ↔ q.1 ≠ c ∧ q ∈ s.live ∨ q.1 = c ∧ Live k' V' c q.2) :
    ({ s with kmem := k', live } : SlabClient).Inv V' extra := by
  obtain ⟨-, -, -, -, -, -, hbufs, hdescs⟩ := Kmem.pool_eq hs.pool
  have hlb : ∀ i p, LiveBuffer k' V' i p ↔ LiveBuffer s.kmem V i p := fun i p =>
    liveBuffer_frame hs.frame hbufs fun i a ha =>
      ⟨h.whole.buffers i a ha, fun hac => h.not_class hc i (hac ▸ ha)⟩
  obtain ⟨hready, hapart⟩ := h.descs_frame hdescs
  obtain ⟨hbuffer, hrecorded⟩ := h.buffer_frame hlb
  refine ⟨hs.whole h.whole, hready, hapart, fun a ha => ?_, h.handles, fun a ha => ?_, hnd,
    fun q hq => ?_, fun a ha p => ?_, h.bufferNodup, hbuffer, hrecorded⟩
  · simp only [hdescs, hbufs]
    exact h.caches a (hs.caches ▸ ha)
  · obtain ⟨ham, hoa, hda⟩ := h.user a ha
    exact ⟨hs.caches ▸ ham, hoa.congr (congrArg Cache.layout (hs.fixed a) :),
      fun i hi => hda i (hdescs ▸ hi)⟩
  · rcases (hlive q).1 hq with ⟨-, hq⟩ | ⟨hq, -⟩
    · exact h.owner q hq
    · exact hq ▸ hc
  · by_cases hac : a = c
    · subst hac
      simp only [hlive, ne_eq, not_true_eq_false, false_and, true_and, false_or]
    · simp only [hlive, ne_eq, hac, not_false_eq_true, true_and, false_and, or_false]
      exact h.live_frame hs.frame ha hac

/-- `kmem_cache_alloc`; no object is handed out while it is live. -/
theorem alloc (h : s.Inv V extra) (hc : c ∈ s.handles) :
    ∃ r k' V', kmem_cache_alloc s.kmem c = some (r, k') ∧
      ({ s with kmem := k', live := r.toList.map (c, ·) ++ s.live } : SlabClient).Inv V' extra ∧
      Served s.kmem k' V V' extra (· = c) ∧ (∀ q, r = some q → (c, q) ∉ s.live) ∧
      (r = none → (s.kmem.buddy.alloc (s.kmem.cache c).slabOrder).1 = none) ∧
      Grew s.kmem k' V V' c := by
  obtain ⟨hcm, ho, -⟩ := h.user c hc
  obtain ⟨r, k', V', he, hs, hg, hnone, hgrew, -⟩ := h.whole.alloc_object hcm ho (2 ^ 64 - 1)
  obtain ⟨hnew, hlive⟩ := hg.iff
  have hnew' : ∀ q, r = some q → (c, q) ∉ s.live := fun q hq hm =>
    hnew q hq ((h.live c hc q).1 hm)
  refine ⟨r, k', V', he, h.served hc hs ?_ fun q => ?_, hs, hnew', fun hr => (hnone hr).1, hgrew⟩
  · cases r with
    | none => exact h.nodup
    | some q => exact List.nodup_cons.2 ⟨hnew' q rfl, h.nodup⟩
  · obtain ⟨a, p⟩ := q
    simp only [List.mem_append, List.mem_map, Option.mem_toList, Prod.mk.injEq, hlive]
    by_cases hac : a = c
    · subst hac
      simp only [true_and, exists_eq_right, ne_eq, not_true_eq_false, false_and, false_or,
        h.live a hc p, or_comm]
    · simp only [ne_eq, hac, Ne.symm hac, not_false_eq_true, true_and, false_and, and_false,
        exists_false, false_or, or_false]

/-- `kmem_cache_free` of an object that is live in its cache. -/
theorem free (h : s.Inv V extra) (hc : c ∈ s.handles) (hp : (c, p) ∈ s.live)
    (hpage : (s.kmem.cache c).InPage) :
    ∃ k' V', kmem_cache_free s.kmem c (some p) = some k' ∧
      ({ s with kmem := k', live := s.live.erase (c, p) } : SlabClient).Inv V' extra ∧
      Served s.kmem k' V V' extra (· = c) ∧
      (∀ u i q, Slot k' V' c u i q ↔ Slot s.kmem V c u i q) ∧
      k'.calls = s.kmem.calls ++ ((s.kmem.cache c).dtor.elim [] fun f => [(f, p)]) ++
        ((s.kmem.cache c).ctor.elim [] fun f => [(f, p)]) := by
  obtain ⟨hcm, ho, hd⟩ := h.user c hc
  have hl := (h.live c hc p).1 hp
  obtain ⟨k', V', he, hs, htook, -, -, -, hslot, hcalls⟩ := h.whole.free_object hcm ho hpage hl
    (h.whole.not_header hcm hd hl)
  refine ⟨k', V', he, h.served hc hs (h.nodup.erase _) fun q => ?_, hs, hslot, hcalls⟩
  obtain ⟨a, q⟩ := q
  rw [h.nodup.mem_erase_iff]
  by_cases hac : a = c
  · subst hac
    simp only [ne_eq, Prod.mk.injEq, true_and, not_true_eq_false, false_and, false_or, htook q,
      h.live a hc q, and_comm]
  · simp only [ne_eq, Prod.mk.injEq, hac, false_and, not_false_eq_true, true_and, or_false]

/-- A change of a cache that its invariant does not see. -/
theorem modCache {f : Cache → Cache} (h : s.Inv V extra) (hc : c ∈ s.handles)
    (hfirst : (f (s.kmem.cache c)).first = (s.kmem.cache c).first)
    (hfix : (f (s.kmem.cache c)).fixed = (s.kmem.cache c).fixed)
    (hnum : (f (s.kmem.cache c)).numOfSlabs = (s.kmem.cache c).numOfSlabs) :
    ({ s with kmem := s.kmem.modCache c f } : SlabClient).Inv V extra ∧
      Served s.kmem (s.kmem.modCache c f) V V extra (· = c) := by
  have hs := h.whole.modCache (h.user c hc).1 hfirst hfix hnum
  refine ⟨h.served hc hs h.nodup fun q => ?_, hs⟩
  obtain ⟨a, q⟩ := q
  rw [live_modCache hfix]
  by_cases hac : a = c
  · subst hac
    simp only [ne_eq, not_true_eq_false, false_and, false_or, true_and, h.live a hc q]
  · simp only [ne_eq, hac, not_false_eq_true, true_and, false_and, or_false]

/-- `kmem_cache_free` of an object of another cache only records an error. -/
theorem free_wrong {c' : Nat} (h : s.Inv V extra) (hc : c ∈ s.handles) (hp : (c', p) ∈ s.live)
    (hpage : (s.kmem.cache c').InPage) (hne : c ≠ c') :
    kmem_cache_free s.kmem c (some p) = some (s.kmem.setError c (-3)) ∧
      ({ s with kmem := s.kmem.setError c (-3), live := s.live.erase (c, p) } : SlabClient).Inv V
        extra := by
  have hc' := h.owner _ hp
  obtain ⟨hcm', ho', -⟩ := h.user c' hc'
  have hl := (h.live c' hc' p).1 hp
  have hnot : (c, p) ∉ s.live := fun hm => by
    obtain ⟨n, i, hs, -⟩ := (h.live c hc p).1 hm
    obtain ⟨n', i', hs', -⟩ := hl
    exact hne (h.whole.slot_unique (h.user c hc).1 hcm' hs hs').1
  refine ⟨h.whole.free_wrong hcm' ho' hpage hl hne, ?_⟩
  rw [List.erase_of_not_mem hnot]
  exact (h.modCache hc rfl rfl rfl).1

/-- `kmem_cache_shrink` that gives no slab back. -/
theorem shrink (h : s.Inv V extra) (hc : c ∈ s.handles) (hu : Unshrunk s.kmem c) :
    ∃ k', kmem_cache_shrink s.kmem c = some (0, k') ∧
      ({ s with kmem := k' } : SlabClient).Inv V extra ∧ Served s.kmem k' V V extra (· = c) := by
  unfold kmem_cache_shrink Cache.cacheShrink
  by_cases hz : (s.kmem.cache c).shrink = 0
  · rw [if_pos hz]
    exact ⟨_, rfl, h.modCache hc rfl rfl rfl⟩
  · rw [if_neg hz, hu.resolve_left hz]
    exact ⟨s.kmem, rfl, h, .refl h.whole.toInv _⟩

/-! ## The other calls -/

/-- A creation that fails. -/
theorem failed (h : s.Inv V extra) (hf : Failed s.kmem k' V V') :
    ({ s with kmem := k' } : SlabClient).Inv V' extra := by
  obtain ⟨hcaches, -, hbufs, hdescs, -⟩ := hf.caches
  have hlb : ∀ i p, LiveBuffer k' V' i p ↔ LiveBuffer s.kmem V i p := fun i p =>
    liveBuffer_frame hf.frame hbufs fun i a ha => ⟨h.whole.buffers i a ha, not_false⟩
  obtain ⟨hready, hapart⟩ := h.descs_frame hdescs
  obtain ⟨hbuffer, hrecorded⟩ := h.buffer_frame hlb
  refine ⟨hf.whole h.whole, hready, hapart, fun a ha => ?_, h.handles,
    fun a ha => h.user_frame hf.frame hdescs ha not_false, h.nodup, h.owner,
    fun a ha p => h.live_frame hf.frame ha not_false, h.bufferNodup, hbuffer, hrecorded⟩
  simp only [hdescs, hbufs]
  exact h.caches a (hcaches ▸ ha)

/-- `kmem_cache_create`. -/
theorem create (h : s.Inv V extra) (ctor dtor : Ptr) (hsize : 1 ≤ size)
    (hsize' : size + 76 ≤ 2 ^ 12 * blockSize) :
    (¬ s.kmem.Available ∧ ∃ k' V', kmem_cache_create s.kmem size ctor dtor = some (none, k') ∧
      ({ s with kmem := k' } : SlabClient).Inv V' extra ∧ Failed s.kmem k' V V') ∨
    s.kmem.Available ∧ ∃ c k' V' o, kmem_cache_create s.kmem size ctor dtor = some (some c, k') ∧
      ({ s with kmem := k', handles := s.handles ++ [c] } : SlabClient).Inv V' extra ∧
      (Unbroken s.kmem V → Unbroken k' V') ∧
      Frame s.kmem k' V V' (fun _ => False) ∧ c ∉ V.caches ∧
      (k'.cache c).unlinked = Cache.init size ctor dtor o (Cache.slotsOf size o) ∧
      Cache.getOrder size = some (o, Cache.slotsOf size o) ∧
      V'.caches = V.caches ++ [c] ∧ k'.memoryBuffers = s.kmem.memoryBuffers ∧
      k'.memBuffSlabs = s.kmem.memBuffSlabs := by
  have hbound : size + 76 ≤ 2 ^ 18 * blockSize := by unfold blockSize at hsize' ⊢; omega
  rcases h.whole.create_object ctor dtor hsize hbound with
    ⟨ha, k', V', he, hf⟩ | ⟨ha, c, k', V', o, he, hw, hcr, hle, ho, hbufs, hdescs⟩
  · exact .inl ⟨ha, k', V', he, h.failed hf, hf⟩
  refine .inr ⟨ha, ?_⟩
  have hf := hcr.frame
  have hne : ∀ a ∈ s.handles, a ≠ c := fun a ha => hcr.ne (h.user a ha).1
  have hlb : ∀ i p, LiveBuffer k' V' i p ↔ LiveBuffer s.kmem V i p := fun i p =>
    liveBuffer_frame hf hbufs fun i a ha => ⟨h.whole.buffers i a ha, not_false⟩
  have hempty : ∀ p, ¬ Live k' V' c p := fun p ⟨n, i, hs, _⟩ => by
    have := hs.slab
    rw [hcr.slabs] at this
    exact absurd this List.not_mem_nil
  obtain ⟨hready, hapart⟩ := h.descs_frame hdescs
  obtain ⟨hbuffer, hrecorded⟩ := h.buffer_frame hlb
  refine ⟨c, k', V', o, he, ⟨hw, hready, hapart, fun a ha => ?_, ?_, fun a ha => ?_, h.nodup,
    fun q hq => List.mem_append_left _ (h.owner q hq), fun a ha p => ?_, h.bufferNodup, hbuffer,
    hrecorded⟩, hcr.unbroken, hf, hcr.new, hcr.cache, ho, hcr.caches, hbufs, hdescs⟩
  · simp only [hdescs, hbufs, List.mem_append, List.mem_singleton]
    rcases hcr.mem.1 ha with ha | rfl
    · exact (h.caches a ha).imp_left .inl
    · exact .inl (.inr rfl)
  · refine List.nodup_append.2 ⟨h.handles, List.nodup_singleton c, fun a ha b hb => ?_⟩
    rw [List.mem_singleton.1 hb]
    exact hne a ha
  · rcases List.mem_append.1 ha with ha | ha
    · exact h.user_frame hf hdescs ha not_false
    · obtain rfl := List.mem_singleton.1 ha
      refine ⟨hcr.mem.2 (.inr rfl), hcr.isObject ‹_› hle, fun i hi => hcr.new ?_⟩
      exact h.whole.descriptors i a (hdescs ▸ hi)
  · rcases List.mem_append.1 ha with ha | ha
    · exact h.live_frame hf ha not_false
    · obtain rfl := List.mem_singleton.1 ha
      exact ⟨fun hm => absurd rfl (hne a (h.owner _ hm)), fun hl => absurd hl (hempty p)⟩

/-- `kmem_cache_destroy`; it may be undefined when failed creations have lost records. -/
theorem destroy (h : s.Inv V extra) (hc : c ∈ s.handles) :
    (V.listed ≠ V.records ∧ kmem_cache_destroy s.kmem (some c) = none) ∨
    ∃ k' V', kmem_cache_destroy s.kmem (some c) = some k' ∧
      ({ s with kmem := k', handles := s.handles.erase c
                live := s.live.filter fun q => q.1 ≠ c } : SlabClient).Inv V' extra ∧
      (Unbroken s.kmem V → Unbroken k' V') ∧
      Frame s.kmem k' V V' (· = c) ∧ V'.caches = V.caches.erase c ∧
      k'.memoryBuffers = s.kmem.memoryBuffers ∧ k'.memBuffSlabs = s.kmem.memBuffSlabs ∧
      Returned s.kmem k' V V' ∧
      k'.calls = s.kmem.calls ++
        (V.lists c .FREE ++ (V.lists c .PARTIAL ++ V.lists c .FULL)).flatMap
          (s.kmem.destructed c) := by
  obtain ⟨hcm, ho, hd⟩ := h.user c hc
  rcases h.whole.destroy hcm ho hd with
    hfail | ⟨k', V', he, hw, hu, hf, hcaches, hbufs, hdescs, hret, hcalls⟩
  · exact .inl hfail
  have hlb : ∀ i p, LiveBuffer k' V' i p ↔ LiveBuffer s.kmem V i p := fun i p =>
    liveBuffer_frame hf hbufs fun i a ha =>
      ⟨h.whole.buffers i a ha, fun hac => h.not_class hc i (hac ▸ ha)⟩
  have hmem : ∀ a, a ∈ s.handles.erase c ↔ a ≠ c ∧ a ∈ s.handles := fun a =>
    h.handles.mem_erase_iff
  have hfilter : ∀ q, q ∈ s.live.filter (fun q => q.1 ≠ c) ↔ q ∈ s.live ∧ q.1 ≠ c := fun q => by
    simp only [List.mem_filter, decide_eq_true_eq]
  obtain ⟨hready, hapart⟩ := h.descs_frame hdescs
  obtain ⟨hbuffer, hrecorded⟩ := h.buffer_frame hlb
  refine .inr ⟨k', V', he, ⟨hw, hready, hapart, fun a ha => ?_, h.handles.erase c, fun a ha => ?_,
    h.nodup.filter _, fun q hq => ?_, fun a ha p => ?_, h.bufferNodup, hbuffer, hrecorded⟩, hu, hf,
    hcaches, hbufs, hdescs, hret, hcalls⟩
  · simp only [hdescs, hbufs]
    rw [hcaches, h.whole.nodup.mem_erase_iff] at ha
    exact (h.caches a ha.2).imp_left fun hm => (hmem a).2 ⟨ha.1, hm⟩
  · obtain ⟨hac, ham⟩ := (hmem a).1 ha
    exact h.user_frame hf hdescs ham hac
  · obtain ⟨hq, hqc⟩ := (hfilter q).1 hq
    exact (hmem q.1).2 ⟨hqc, h.owner q hq⟩
  · obtain ⟨hac, ham⟩ := (hmem a).1 ha
    rw [hfilter, ← h.live_frame hf ham hac]
    exact and_iff_left hac

/-- `kmalloc`. -/
theorem kmalloc (h : s.Inv V extra) (hsize : minBuffSize ≤ size) (hsize' : size ≤ maxBuffSize)
    (hfit : s.kmem.memoryBuffers (getPowerOfTwo size) = none → FitsClass size) :
    (s.kmem.memoryBuffers (getPowerOfTwo size) = none ∧ ¬ s.kmem.Available ∧
      SlabKernel.kmalloc s.kmem size = none) ∨
    ∃ r k' V' c d, SlabKernel.kmalloc s.kmem size = some (r, k') ∧
      ({ s with kmem := k', buffers := r.toList.map (·, size) ++ s.buffers } : SlabClient).Inv V'
        extra ∧
      (Unbroken s.kmem V → Unbroken k' V') ∧
      Frame s.kmem k' V V' (fun a => a = c ∨ a = d) ∧
      (∀ a ∈ s.handles, ¬ (a = c ∨ a = d)) ∧
      k'.memoryBuffers = update s.kmem.memoryBuffers (getPowerOfTwo size) (some c) ∧
      s.kmem.memBuffSlabs (getPowerOfTwo size) = some d ∧
      (s.kmem.memoryBuffers (getPowerOfTwo size) = some c ∧ V'.caches = V.caches ∨
        s.kmem.memoryBuffers (getPowerOfTwo size) = none ∧ c ∉ V.caches ∧
          V'.caches = V.caches ++ [c]) ∧
      GaveBuffer s.kmem k' V V' (getPowerOfTwo size) r ∧
      k'.memBuffSlabs = s.kmem.memBuffSlabs ∧
      ∃ k₁, s.kmem.readied size = some k₁ ∧ k₁.memoryBuffers (getPowerOfTwo size) = some c ∧
        (r ≠ none ↔ k₁.Room c) ∧
        Supplied (k₁.Starved c) (Descriptor s.kmem V (getPowerOfTwo size))
          (Descriptor k' V' (getPowerOfTwo size)) (BufferSlab s.kmem V (getPowerOfTwo size))
          (BufferSlab k' V' (getPowerOfTwo size)) r := by
  rcases h.whole.kmalloc h.ready hsize hsize' hfit with
    hfail | ⟨r, k', V', c, d, he, hw, hu, hf, hbufs, hdescs, hd, hcase, ⟨hnew, hgave⟩, hsup⟩
  · exact .inl hfail
  right
  -- the caches of clients are none of the size classes
  have hS : ∀ a ∈ s.handles, ¬ (a = c ∨ a = d) := by
    rintro a ha (rfl | rfl)
    · rcases hcase with ⟨hi, -⟩ | ⟨-, hn, -⟩
      · exact h.not_class ha _ hi
      · exact hn (h.user a ha).1
    · exact (h.user a ha).2.2 _ hd
  have hcaches : ∀ a, a ∈ V'.caches ↔ a ∈ V.caches ∨ a = c := fun a => by
    rcases hcase with ⟨hi, hv⟩ | ⟨-, -, hv⟩
    · rw [hv]
      exact ⟨.inl, fun hor => hor.elim id fun hac => hac ▸ h.whole.buffers _ c hi⟩
    · rw [hv, List.mem_append, List.mem_singleton]
  have hclass : ∀ i a, s.kmem.memoryBuffers i = some a → ∃ i, k'.memoryBuffers i = some a := by
    intro i a hi
    rw [hbufs]
    by_cases hii : i = getPowerOfTwo size
    · rcases hcase with ⟨hc, -⟩ | ⟨hn, -⟩
      · exact ⟨i, by rw [hii, update_self, ← hc, ← hii, hi]⟩
      · rw [hii, hn] at hi
        cases hi
    · exact ⟨i, by rw [update_of_ne hii, hi]⟩
  have hrec : ∀ p, p ∈ (r.toList.map (·, size) ++ s.buffers).map Prod.fst ↔
      p ∈ s.buffers.map Prod.fst ∨ r = some p := fun p => by
    cases r with
    | none => simp only [Option.toList_none, List.map_nil, List.nil_append, reduceCtorEq, or_false]
    | some q =>
      simp only [Option.toList_some, List.map_cons, List.map_nil, List.cons_append, List.nil_append,
        List.mem_cons, Option.some.injEq, or_comm, eq_comm]
  obtain ⟨hready, hapart⟩ := h.descs_frame hdescs
  refine ⟨r, k', V', c, d, he, ⟨hw, hready, hapart, fun a ha => ?_, h.handles,
    fun a ha => h.user_frame hf hdescs ha (hS a ha), h.nodup, h.owner,
    fun a ha p => h.live_frame hf ha (hS a ha), ?_, fun q hq => ?_, fun i p hp => ?_⟩, hu, hf, hS,
    hbufs, hd, hcase, ⟨hnew, hgave⟩, hdescs, hsup⟩
  · rcases (hcaches a).1 ha with ha | rfl
    · rcases h.caches a ha with hm | ⟨i, hi⟩ | ⟨i, hi⟩
      · exact .inl hm
      · exact .inr (.inl ⟨i, by rw [hdescs]; exact hi⟩)
      · exact .inr (.inr (hclass i a hi))
    · exact .inr (.inr ⟨_, by rw [hbufs, update_self]⟩)
  · cases r with
    | none => exact h.bufferNodup
    | some q =>
      refine List.nodup_cons.2 ⟨fun hm => ?_, h.bufferNodup⟩
      obtain ⟨b, hb, rfl⟩ := List.mem_map.1 hm
      exact hnew b.1 rfl _ (h.buffer b hb).2.2
  · rcases List.mem_append.1 hq with hq | hq
    · obtain ⟨p, hp, rfl⟩ := List.mem_map.1 hq
      exact ⟨hsize, hsize', (hgave _ _).2 (.inr ⟨rfl, Option.mem_toList.1 hp⟩)⟩
    · obtain ⟨h1, h2, h3⟩ := h.buffer q hq
      exact ⟨h1, h2, (hgave _ _).2 (.inl h3)⟩
  · rw [hrec]
    exact ((hgave i p).1 hp).imp (h.recorded i p) And.right

/-- A live buffer has gone back to its cache. -/
theorem took_buffer {i : Nat} (h : s.Inv V extra) (hc : s.kmem.memoryBuffers i = some c)
    (hl : Live s.kmem V c p) (hs : Served s.kmem k' V V' extra (· = c))
    (htook : Took s.kmem k' V V' c p) :
    ({ s with kmem := k', buffers := s.buffers.filter fun q => q.1 ≠ p } : SlabClient).Inv V'
      extra := by
  obtain ⟨-, -, -, -, -, -, hbufs, hdescs⟩ := Kmem.pool_eq hs.pool
  have hcm := h.whole.buffers _ c hc
  have hS : ∀ a ∈ s.handles, a ≠ c := fun a ha hac => h.not_class ha _ (hac ▸ hc)
  have hlb := h.whole.liveBuffer_took h.whole.buffers hcm hl hs htook
  have hfilter : ∀ q, q ∈ s.buffers.filter (fun q => q.1 ≠ p) ↔ q ∈ s.buffers ∧ q.1 ≠ p :=
    fun q => by simp only [List.mem_filter, decide_eq_true_eq]
  obtain ⟨hready, hapart⟩ := h.descs_frame hdescs
  refine ⟨hs.whole h.whole, hready, hapart, fun a ha => ?_, h.handles,
    fun a ha => h.user_frame hs.frame hdescs ha (hS a ha), h.nodup, h.owner,
    fun a ha q => h.live_frame hs.frame ha (hS a ha), ?_, fun q hq => ?_, fun i q hq => ?_⟩
  · simp only [hdescs, hbufs]
    exact h.caches a (hs.caches ▸ ha)
  · exact h.bufferNodup.sublist ((List.filter_sublist).map _)
  · obtain ⟨hq, hne⟩ := (hfilter q).1 hq
    obtain ⟨h1, h2, h3⟩ := h.buffer q hq
    exact ⟨h1, h2, (hlb _ _).2 ⟨h3, hne⟩⟩
  · obtain ⟨hl', hne⟩ := (hlb i q).1 hq
    obtain ⟨b, hbm, rfl⟩ := List.mem_map.1 (h.recorded i q hl')
    exact List.mem_map.2 ⟨b, (hfilter b).2 ⟨hbm, hne⟩, rfl⟩

/-- `kfree` of a live buffer. -/
theorem kfree (h : s.Inv V extra) (hp : p ∈ s.buffers.map Prod.fst) :
    ∃ i c k' V', SlabKernel.kfree s.kmem (some p) = some k' ∧
      ({ s with kmem := k', buffers := s.buffers.filter fun q => q.1 ≠ p } : SlabClient).Inv V'
        extra ∧
      Served s.kmem k' V V' extra (· = c) ∧ s.kmem.memoryBuffers i = some c ∧
      (V'.slabs c).Perm (V.slabs c) ∧ ∃ size, (p, size) ∈ s.buffers ∧ getPowerOfTwo size = i := by
  obtain ⟨⟨p, size⟩, hb, rfl⟩ := List.mem_map.1 hp
  obtain ⟨-, -, c, hc, hl⟩ := h.buffer _ hb
  simp only at hc hl
  obtain ⟨k', V', he, hs, htook, hperm⟩ := h.whole.kfree h.whole.buffers hc hl
  exact ⟨_, c, k', V', he, h.took_buffer hc hl hs htook, hs, hc, hperm, size, hb, rfl⟩

end Inv

end SlabClient

end SlabKernel
