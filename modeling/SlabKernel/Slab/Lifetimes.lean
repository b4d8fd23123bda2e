import SlabKernel.Lib.Lifecycle
import SlabKernel.Slab.Small

/-!
# Constructors and destructors

`history c s ops` are the events of the cache `c` in a run: the constructors and destructors that its
calls run, and the objects that they hand out and take back. From its creation on, the events at
every address follow the lifecycle of `Lib/Lifecycle` (`Inv.lives_step`, `Inv.lives_run`): a slot is
constructed when its slab is created, destructed and constructed again when it comes back, and
destructed with the slab. At any other address there are no events.
-/

namespace SlabKernel

open Function (update update_self update_of_ne)
open PtrList CachePool Runs Lifecycle

variable {k k' : Kmem} {V V' : View} {extra : List (Nat × Nat)} {c p f g : Nat}

/-! ## Events -/

/-- The calls of constructors and destructors between `k` and `k'`. -/
def callsSince (k k' : Kmem) : List (Nat × Event Nat) :=
  (k'.calls.drop k.calls.length).map fun q => (q.2, .call q.1)

theorem callsSince_append {l : List (Nat × Nat)} (h : k'.calls = k.calls ++ l) :
    callsSince k k' = l.map fun q => (q.2, .call q.1) := by
  unfold callsSince
  rw [h, List.drop_left]

/-- The events at the address `p`. -/
def eventsAt (p : Nat) (l : List (Nat × Event Nat)) : List (Event Nat) :=
  l.filterMap fun q => if q.1 = p then some q.2 else none

theorem eventsAt_append (p : Nat) (l l' : List (Nat × Event Nat)) :
    eventsAt p (l ++ l') = eventsAt p l ++ eventsAt p l' := List.filterMap_append

/-- One event at each address of a list. -/
theorem eventsAt_map {l : List Nat} (e : Event Nat) (h : l.Nodup) :
    eventsAt p (l.map (·, e)) = if p ∈ l then [e] else [] := by
  induction l with
  | nil => rfl
  | cons a l ih =>
    obtain ⟨ha, hl⟩ := List.nodup_cons.1 h
    have hcons : eventsAt p ((a :: l).map (·, e)) =
        (if a = p then [e] else []) ++ eventsAt p (l.map (·, e)) := by
      unfold eventsAt
      rw [List.map_cons, List.filterMap_cons]
      split <;> simp_all
    rw [hcons, ih hl]
    by_cases hap : a = p
    · subst hap
      simp only [if_true, if_neg ha, List.append_nil, List.mem_cons, true_or]
    · simp only [if_neg hap, List.nil_append, List.mem_cons, Ne.symm hap, false_or]

namespace SlabClient

/-- What a call does to the objects of the cache `c`. -/
def events (c : Nat) (s : SlabClient) : SlabCall → List (Nat × Event Nat)
  | .alloc d =>
    if d = c then
      (kmem_cache_alloc s.kmem c).elim [] fun r =>
        callsSince s.kmem r.2 ++ r.1.toList.map (·, .given)
    else []
  | .free d p =>
    if d = c ∧ (c, p) ∈ s.live then
      (p, .taken) :: (kmem_cache_free s.kmem c (some p)).elim [] (callsSince s.kmem)
    else []
  | .destroy d =>
    if d = c then (kmem_cache_destroy s.kmem (some c)).elim [] (callsSince s.kmem) else []
  | .shrink d =>
    if d = c then (kmem_cache_shrink s.kmem c).elim [] fun r => callsSince s.kmem r.2 else []
  | _ => []

def history (c : Nat) : SlabClient → List SlabCall → List (Nat × Event Nat)
  | _, [] => []
  | s, op :: ops => events c s op ++ (s.step op).elim [] fun s' => history c s' ops

/-- The history `l` of the cache `c` has left its slots in order. -/
structure Lives (s : SlabClient) (V : View) (c f g : Nat) (l : List (Nat × Event Nat)) : Prop where
  mem : c ∈ s.handles
  ctor : (s.kmem.cache c).ctor = some f
  dtor : (s.kmem.cache c).dtor = some g
  outside : ∀ p, ¬ IsSlot s.kmem V c p → eventsAt p l = []
  inside : ∀ p, IsSlot s.kmem V c p →
    replay f g .raw (eventsAt p l) = some (if (c, p) ∈ s.live then .held else .ready)

variable {s s' : SlabClient} {l : List (Nat × Event Nat)} {S : Nat → Prop}

/-- Calls that do not concern the cache. -/
theorem Lives.frame (hl : s.Lives V c f g l) (hmem : c ∈ s'.handles)
    (hctor : (s'.kmem.cache c).ctor = (s.kmem.cache c).ctor)
    (hdtor : (s'.kmem.cache c).dtor = (s.kmem.cache c).dtor)
    (hslot : ∀ p, IsSlot s'.kmem V' c p ↔ IsSlot s.kmem V c p)
    (hlive : ∀ p, (c, p) ∈ s'.live ↔ (c, p) ∈ s.live) : s'.Lives V' c f g l := by
  refine ⟨hmem, hctor.trans hl.ctor, hdtor.trans hl.dtor, fun p hp => ?_, fun p hp => ?_⟩
  · exact hl.outside p fun h => hp ((hslot p).2 h)
  · rw [hl.inside p ((hslot p).1 hp)]
    simp only [hlive]

theorem Lives.of_frame (hl : s.Lives V c f g l) (h : s.Inv V extra)
    (hf : Frame s.kmem s'.kmem V V' S) (hS : ¬ S c) (hmem : c ∈ s'.handles)
    (hlive : ∀ p, (c, p) ∈ s'.live ↔ (c, p) ∈ s.live) : s'.Lives V' c f g l := by
  have hcm := (h.user c hl.mem).1
  have hc := hf.cache c hcm hS
  exact hl.frame hmem (congrArg Cache.ctor hc :) (congrArg Cache.dtor hc :)
    (fun p => exists_congr fun t => exists_congr fun i => hf.slot hcm hS) hlive

namespace Inv

theorem isSlot_of_live (h : s.Inv V extra) (hc : c ∈ s.handles) (hp : (c, p) ∈ s.live) :
    IsSlot s.kmem V c p := by
  obtain ⟨t, i, hslot, -⟩ := (h.live c hc p).1 hp
  exact ⟨t, i, hslot⟩

/-! ## Steps -/

theorem newSlots_nodup (h : s.Inv V extra) (hc : c ∈ s.handles) : (s.kmem.newSlots c).Nodup := by
  have hpos := h.whole.slotSize_pos (h.user c hc).1
  unfold Kmem.newSlots
  split
  · cases (s.kmem.buddy.alloc (s.kmem.cache c).slabOrder).1 with
    | none => exact List.nodup_nil
    | some t =>
      refine List.nodup_range.map fun i j hij => ?_
      exact Nat.eq_of_mul_eq_mul_right hpos (Nat.add_left_cancel hij)
  · exact List.nodup_nil

/-- An allocation constructs the slots of a new slab, and hands a slot out. -/
theorem lives_alloc (h : s.Inv V extra) (hl : s.Lives V c f g l) (hs : s.step (.alloc c) = some s') :
    ∃ V', s'.Inv V' extra ∧ s'.Lives V' c f g (l ++ events c s (.alloc c)) := by
  obtain ⟨r, k', V', he, hi, hserved, hfresh, -, hgrew⟩ := h.alloc hl.mem
  have hs' : s' = { s with kmem := k', live := r.toList.map (c, ·) ++ s.live } := by
    simp only [SlabClient.step, he, Option.map_some, Option.some.injEq] at hs
    exact hs.symm
  have hcalls := hgrew.calls
  rw [hl.ctor, Option.elim_some] at hcalls
  have hevents : events c s (.alloc c) =
      (s.kmem.newSlots c).map (·, .call f) ++ r.toList.map (·, .given) := by
    simp only [events, if_true, he, Option.elim_some]
    rw [callsSince_append hcalls, List.map_map]
    rfl
  have hlive : ∀ p, (c, p) ∈ s'.live ↔ r = some p ∨ (c, p) ∈ s.live := fun p => by
    rw [hs']
    simp only [List.mem_append, List.mem_map, Option.mem_toList, Prod.mk.injEq, true_and,
      exists_eq_right]
  have hat : ∀ p, eventsAt p (l ++ events c s (.alloc c)) = eventsAt p l ++
      ((if p ∈ s.kmem.newSlots c then [.call f] else []) ++ if r = some p then [.given] else []) := by
    intro p
    rw [hevents, eventsAt_append, eventsAt_append, eventsAt_map _ (h.newSlots_nodup hl.mem),
      eventsAt_map _ (Option.toList_nodup r)]
    simp only [Option.mem_toList]
  have hkmem : s'.kmem = k' := by rw [hs']
  refine ⟨V', hs' ▸ hi, ?_, ?_, ?_, fun p hp => ?_, fun p hp => ?_⟩
  · rw [hs']
    exact hl.mem
  · rw [hkmem]
    exact (congrArg Cache.ctor (hserved.fixed c) :).trans hl.ctor
  · rw [hkmem]
    exact (congrArg Cache.dtor (hserved.fixed c) :).trans hl.dtor
  · rw [hkmem, hgrew.slot, not_or] at hp
    have hr : r ≠ some p := fun hr => by
      have := hi.isSlot_of_live hl.mem (p := p) (by rw [← hs', hlive]; exact .inl hr)
      rcases (hgrew.slot p).1 this with hp' | hp'
      · exact hp.1 hp'
      · exact hp.2 hp'
    rw [hat, hl.outside p hp.1, if_neg hp.2, if_neg hr]
    rfl
  · rw [hkmem, hgrew.slot] at hp
    by_cases hold : IsSlot s.kmem V c p
    · have hnew : p ∉ s.kmem.newSlots c := fun hm => hgrew.fresh p hm hold
      rw [hat, if_neg hnew, List.nil_append, replay_append, hl.inside p hold]
      simp only [hlive]
      by_cases hr : r = some p
      · simp only [hr, hfresh p hr, if_true, if_false, true_or, Option.bind_some]
        rfl
      · simp only [hr, if_false, false_or, Option.bind_some, replay_nil]
    · have hnew := hp.resolve_left hold
      have hnot : (c, p) ∉ s.live := fun hm => hold (h.isSlot_of_live hl.mem hm)
      rw [hat, hl.outside p hold, if_pos hnew]
      simp only [hlive, hnot, or_false]
      by_cases hr : r = some p
      · simp [hr, replay, next]
      · simp [hr, replay, next]

/-- A live object is destructed and constructed again. -/
theorem lives_free (h : s.Inv V extra) (hl : s.Lives V c f g l) (hp : (c, p) ∈ s.live)
    (hpage : (s.kmem.cache c).InPage) (hs : s.step (.free c p) = some s') :
    ∃ V', s'.Inv V' extra ∧ s'.Lives V' c f g (l ++ events c s (.free c p)) := by
  obtain ⟨k', V', he, hi, hserved, hslot, hcalls⟩ := h.free hl.mem hp hpage
  have hs' : s' = { s with kmem := k', live := s.live.erase (c, p) } := by
    simp only [SlabClient.step, he, Option.map_some, Option.some.injEq] at hs
    exact hs.symm
  have hkmem : s'.kmem = k' := by rw [hs']
  rw [hl.ctor, hl.dtor, Option.elim_some, Option.elim_some, List.append_assoc] at hcalls
  have hevents : events c s (.free c p) = [(p, .taken), (p, .call g), (p, .call f)] := by
    simp only [events, hp, and_self, if_true, he, Option.elim_some]
    rw [callsSince_append hcalls]
    rfl
  have hat : ∀ q, eventsAt q (l ++ events c s (.free c p)) =
      eventsAt q l ++ if p = q then [.taken, .call g, .call f] else [] := by
    intro q
    rw [hevents, eventsAt_append]
    unfold eventsAt
    by_cases hpq : p = q
    · simp [hpq]
    · simp [hpq]
  have hsame : ∀ q, IsSlot k' V' c q ↔ IsSlot s.kmem V c q := fun q =>
    exists_congr fun t => exists_congr fun i => hslot t i q
  have hlive : ∀ q, (c, q) ∈ s'.live ↔ q ≠ p ∧ (c, q) ∈ s.live := fun q => by
    rw [hs', h.nodup.mem_erase_iff]
    simp only [ne_eq, Prod.mk.injEq, true_and]
  refine ⟨V', hs' ▸ hi, ?_, ?_, ?_, fun q hq => ?_, fun q hq => ?_⟩
  · rw [hs']
    exact hl.mem
  · rw [hkmem]
    exact (congrArg Cache.ctor (hserved.fixed c) :).trans hl.ctor
  · rw [hkmem]
    exact (congrArg Cache.dtor (hserved.fixed c) :).trans hl.dtor
  · rw [hkmem, hsame] at hq
    have hpq : p ≠ q := fun hpq => hq (hpq ▸ h.isSlot_of_live hl.mem hp)
    rw [hat, if_neg hpq, List.append_nil]
    exact hl.outside q hq
  · rw [hkmem, hsame] at hq
    rw [hat, replay_append, hl.inside q hq]
    simp only [hlive]
    by_cases hpq : p = q
    · subst hpq
      simp [hp, replay, next]
    · simp only [if_neg hpq, ne_eq, Ne.symm hpq, not_false_eq_true, true_and, Option.bind_some,
        replay_nil]

/-- A change of a cache that its slabs do not see. -/
theorem lives_modCache {F : Cache → Cache} (hl : s.Lives V c f g l)
    (hfix : (F (s.kmem.cache c)).fixed = (s.kmem.cache c).fixed) :
    ({ s with kmem := s.kmem.modCache c F } : SlabClient).Lives V c f g l := by
  refine hl.frame hl.mem ?_ ?_ (fun p => ?_) fun p => Iff.rfl
  · simp only [Kmem.modCache, update_self]
    exact (congrArg Cache.ctor hfix :)
  · simp only [Kmem.modCache, update_self]
    exact (congrArg Cache.dtor hfix :)
  · exact exists_congr fun t => exists_congr fun i => slot_modCache hfix

theorem events_elsewhere {op : SlabCall} (hu : ¬ s.Uses s' op c) : events c s op = [] := by
  cases op with
  | alloc d => exact if_neg fun hdc => hu hdc.symm
  | free d p => exact if_neg fun hand => hu hand.1.symm
  | destroy d => exact if_neg fun hdc => hu hdc.symm
  | shrink d => exact if_neg fun hdc => hu hdc.symm
  | create | kmalloc | kfree => rfl

/-- A call that does not use the cache leaves its handle and its live objects. -/
theorem step_elsewhere {op : SlabCall} (h : s.Inv V extra) (hc : c ∈ s.handles)
    (hu : ¬ s.Uses s' op c) (hs : s.step op = some s') :
    c ∈ s'.handles ∧ ∀ p, (c, p) ∈ s'.live ↔ (c, p) ∈ s.live := by
  cases op with
  | create size ctor dtor =>
    obtain ⟨r, -, rfl⟩ := Option.map_eq_some_iff.1 hs
    exact ⟨List.mem_append_left _ hc, fun _ => Iff.rfl⟩
  | alloc d =>
    obtain ⟨r, -, rfl⟩ := Option.map_eq_some_iff.1 hs
    have hdc : d ≠ c := fun hdc => hu hdc.symm
    refine ⟨hc, fun p => ?_⟩
    simp only [List.mem_append, List.mem_map, Prod.mk.injEq, hdc, false_and, and_false,
      exists_false, false_or]
  | free d p =>
    obtain ⟨r, -, rfl⟩ := Option.map_eq_some_iff.1 hs
    have hcd : c ≠ d := hu
    refine ⟨hc, fun q => ?_⟩
    rw [h.nodup.mem_erase_iff]
    simp only [ne_eq, Prod.mk.injEq, hcd, false_and, not_false_eq_true, true_and]
  | destroy d =>
    obtain ⟨r, -, rfl⟩ := Option.map_eq_some_iff.1 hs
    have hcd : c ≠ d := hu
    refine ⟨h.handles.mem_erase_iff.2 ⟨hcd, hc⟩, fun p => ?_⟩
    simp only [List.mem_filter, ne_eq, decide_eq_true_eq, hcd, not_false_eq_true, and_true]
  | shrink d =>
    obtain ⟨r, -, rfl⟩ := Option.map_eq_some_iff.1 hs
    exact ⟨hc, fun _ => Iff.rfl⟩
  | kmalloc size =>
    obtain ⟨r, -, rfl⟩ := Option.map_eq_some_iff.1 hs
    exact ⟨hc, fun _ => Iff.rfl⟩
  | kfree p =>
    obtain ⟨r, -, rfl⟩ := Option.map_eq_some_iff.1 hs
    exact ⟨hc, fun _ => Iff.rfl⟩

/-- The object of another cache is not freed. -/
theorem lives_free_wrong {d : Nat} (h : s.Inv V extra) (hl : s.Lives V c f g l)
    (hp : (d, p) ∈ s.live) (hpage : (s.kmem.cache d).InPage) (hcd : c ≠ d)
    (hs : s.step (.free c p) = some s') :
    ∃ V', s'.Inv V' extra ∧ s'.Lives V' c f g (l ++ events c s (.free c p)) := by
  have hnot : (c, p) ∉ s.live := fun hm => by
    obtain ⟨t, i, hslot⟩ := h.isSlot_of_live hl.mem hm
    obtain ⟨t', i', hslot'⟩ := h.isSlot_of_live (h.owner _ hp) hp
    exact hcd (h.whole.slot_unique (h.user c hl.mem).1 (h.user d (h.owner _ hp)).1 hslot hslot').1
  obtain ⟨he, hi⟩ := h.free_wrong hl.mem hp hpage hcd
  simp only [SlabClient.step, he, Option.map_some, Option.some.injEq] at hs
  subst hs
  refine ⟨V, hi, ?_⟩
  rw [events, if_neg fun hand => hnot hand.2, List.append_nil, List.erase_of_not_mem hnot]
  exact lives_modCache hl rfl

/-- A shrink that gives no slab back destructs nothing. -/
theorem shrink_calls {n : Nat} (hu : Unshrunk s.kmem c)
    (he : kmem_cache_shrink s.kmem c = some (n, k')) : callsSince s.kmem k' = [] := by
  rw [callsSince_append (l := [])]
  · rfl
  rw [List.append_nil]
  unfold kmem_cache_shrink Cache.cacheShrink at he
  split at he
  · obtain rfl := (Prod.mk.inj (Option.some.inj he)).2
    rfl
  · rename_i hz
    rw [hu.resolve_left hz] at he
    obtain rfl := (Prod.mk.inj (Option.some.inj he)).2
    rfl

theorem lives_shrink (h : s.Inv V extra) (hl : s.Lives V c f g l) (hok : s.Ok (.shrink c))
    (hs : s.step (.shrink c) = some s') :
    ∃ V', s'.Inv V' extra ∧ s'.Lives V' c f g (l ++ events c s (.shrink c)) := by
  obtain ⟨k', he, hi, -⟩ := h.shrink hok.1 hok.2
  simp only [SlabClient.step, he, Option.map_some, Option.some.injEq] at hs
  subst hs
  refine ⟨V, hi, ?_⟩
  rw [events, if_pos rfl, he, Option.elim_some, shrink_calls hok.2 he, List.append_nil]
  unfold kmem_cache_shrink Cache.cacheShrink at he
  split at he
  · obtain rfl := (Prod.mk.inj (Option.some.inj he)).2
    exact lives_modCache hl rfl
  · rename_i hz
    rw [hok.2.resolve_left hz] at he
    obtain rfl := (Prod.mk.inj (Option.some.inj he)).2
    exact hl

/-- A call that does not destroy the cache. -/
theorem lives_step {op : SlabCall} (h : s.Inv V extra) (hl : s.Lives V c f g l) (hok : s.Ok op)
    (hne : op ≠ .destroy c) (hs : s.step op = some s') :
    ∃ V', s'.Inv V' extra ∧ s'.Lives V' c f g (l ++ events c s op) := by
  obtain ⟨V', hi, hk⟩ := h.step (.inl hok) hs
  by_cases hu : s.Uses s' op c
  · cases op with
    | create size ctor dtor => exact hu.elim
    | alloc d =>
      obtain rfl : c = d := hu
      exact h.lives_alloc hl hs
    | free d p =>
      obtain rfl : c = d := hu
      obtain ⟨-, d, hp, hpage⟩ := hok
      by_cases hcd : c = d
      · subst hcd
        exact h.lives_free hl hp hpage hs
      · exact h.lives_free_wrong hl hp hpage hcd hs
    | destroy d => exact absurd (congrArg SlabCall.destroy (Eq.symm hu)) hne
    | shrink d =>
      obtain rfl : c = d := hu
      exact h.lives_shrink hl hok hs
    | kmalloc size =>
      obtain ⟨r, -, rfl⟩ := Option.map_eq_some_iff.1 hs
      cases hu with
      | inl hb => exact absurd hb (hi.not_class hl.mem _)
      | inr hd => exact absurd hd ((h.user c hl.mem).2.2 _)
    | kfree p =>
      obtain ⟨size, -, hb⟩ := hu
      exact absurd hb (h.not_class hl.mem _)
  · obtain ⟨hmem, hlive⟩ := h.step_elsewhere hl.mem hu hs
    refine ⟨V', hi, ?_⟩
    rw [events_elsewhere hu, List.append_nil]
    exact hl.of_frame h hk.frame hu hmem hlive

/-! ## The end -/

/-- The slots of the cache `c`, in the order in which `destroyCache` destructs them. -/
def slotList (k : Kmem) (V : View) (c : Nat) : List Nat :=
  (V.lists c .FREE ++ (V.lists c .PARTIAL ++ V.lists c .FULL)).flatMap fun t =>
    (List.range (k.cache c).objNum).map fun i => (k.slab t).mem.getD 0 + i * (k.cache c).slotSize

theorem mem_slotList (h : s.Inv V extra) (hc : c ∈ s.handles) :
    p ∈ slotList s.kmem V c ↔ IsSlot s.kmem V c p := by
  obtain ⟨hcm, ho, -⟩ := h.user c hc
  have hmem : ∀ t ∈ V.slabs c, ∃ m, (s.kmem.slab t).mem = some m := fun t ht =>
    ⟨_, (h.whole.placed c hcm t ht).object ho.type⟩
  unfold slotList
  rw [List.mem_flatMap]
  constructor
  · intro hp
    obtain ⟨t, ht, hp⟩ := hp
    obtain ⟨i, hi, rfl⟩ := List.mem_map.1 hp
    have ht' : t ∈ V.slabs c := (slabsOf_perm _).mem_iff.2 ht
    obtain ⟨m, hm⟩ := hmem t ht'
    exact ⟨t, i, ht', List.mem_range.1 hi, m, hm, by rw [hm]; rfl⟩
  · intro hp
    obtain ⟨t, i, ht, hi, m, hm, rfl⟩ := hp
    refine ⟨t, (slabsOf_perm _).mem_iff.1 ht, List.mem_map.2 ⟨i, List.mem_range.2 hi, ?_⟩⟩
    rw [hm]
    rfl

theorem slotList_nodup (h : s.Inv V extra) (hc : c ∈ s.handles) :
    (slotList s.kmem V c).Nodup := by
  obtain ⟨hcm, ho, -⟩ := h.user c hc
  have hpos := h.whole.slotSize_pos hcm
  have hrep := h.whole.reps c hcm
  have hnd := (slabsOf_perm (V.lists c)).nodup_iff.1
    (slabsOf_nodup (fun g => (hrep.shelves.lists g).nodup) hrep.shelves.disjoint)
  have hslot : ∀ t ∈ V.lists c .FREE ++ (V.lists c .PARTIAL ++ V.lists c .FULL),
      ∀ q ∈ (List.range (s.kmem.cache c).objNum).map fun i =>
        (s.kmem.slab t).mem.getD 0 + i * (s.kmem.cache c).slotSize,
      ∃ i, Slot s.kmem V c t i q := by
    intro t ht q hq
    obtain ⟨i, hi, rfl⟩ := List.mem_map.1 hq
    have ht' : t ∈ V.slabs c := (slabsOf_perm _).mem_iff.2 ht
    have hm := (h.whole.placed c hcm t ht').object ho.type
    exact ⟨i, ht', List.mem_range.1 hi, _, hm, by rw [hm]; rfl⟩
  refine List.nodup_flatMap.2 ⟨fun t _ => ?_, ?_⟩
  · refine List.nodup_range.map fun i j hij => ?_
    exact Nat.eq_of_mul_eq_mul_right hpos (Nat.add_left_cancel hij)
  · refine hnd.imp_of_mem fun {t u} ht hu hne q hq hq' => hne ?_
    obtain ⟨i, hi⟩ := hslot t ht q hq
    obtain ⟨j, hj⟩ := hslot u hu q hq'
    exact (h.whole.slot_unique hcm hcm hi hj).2.1

/-- `kmem_cache_destroy`, if it returns, runs the destructor once on every slot. -/
theorem destroy_events (h : s.Inv V extra) (hl : s.Lives V c f g l)
    (hs : s.step (.destroy c) = some s') :
    events c s (.destroy c) = (slotList s.kmem V c).map (·, .call g) := by
  rcases h.destroy hl.mem with ⟨-, hn⟩ | ⟨k', V', he, -, -, -, -, -, -, -, hcalls⟩
  · simp only [SlabClient.step, hn, Option.map_none, reduceCtorEq] at hs
  simp only [events, if_true, he, Option.elim_some]
  rw [callsSince_append hcalls]
  unfold slotList
  simp only [Kmem.destructed, Cache.callsOn, hl.dtor, Option.elim_some, List.map_flatMap,
    List.map_map]
  rfl

end Inv

/-! ## Runs -/

theorem history_append {ops ops' : List SlabCall} (hrun : Run Ok SlabClient.step s ops s') :
    history c s (ops ++ ops') = history c s ops ++ history c s' ops' := by
  induction hrun with
  | nil => rfl
  | cons hok hs _ ih =>
    rw [List.cons_append, history, history, hs, Option.elim_some, Option.elim_some, ih,
      List.append_assoc]

theorem lives_run {ops : List SlabCall} (hrun : Run Ok SlabClient.step s ops s')
    (h : ∃ V, s.Inv V extra ∧ s.Lives V c f g l) (hkeep : .destroy c ∉ ops) :
    ∃ V, s'.Inv V extra ∧ s'.Lives V c f g (l ++ history c s ops) := by
  induction hrun generalizing l with
  | nil =>
    rw [history, List.append_nil]
    exact h
  | @cons s s₁ s₂ op ops hok hs _ ih =>
    obtain ⟨V, hi, hl⟩ := h
    rw [List.mem_cons, not_or] at hkeep
    rw [history, hs, Option.elim_some, ← List.append_assoc]
    exact ih (hi.lives_step hl hok (Ne.symm hkeep.1) hs) hkeep.2

/-- A new cache has no slots. -/
theorem Inv.lives_create {size : Nat} (h : s.Inv V extra)
    (hok : s.Ok (.create size (some f) (some g)))
    (hs : s.step (.create size (some f) (some g)) = some s') (hc : s'.handles = s.handles ++ [c]) :
    ∃ V', s'.Inv V' extra ∧ s'.Lives V' c f g [] := by
  rcases h.create (some f) (some g) hok.1 hok.2 with
    ⟨-, k', V', he, -⟩ | ⟨-, d, k', V', o, he, hi, -, -, -, hcache, -⟩
  · simp only [SlabClient.step, he, Option.map_some, Option.some.injEq, Option.toList_none,
      List.append_nil] at hs
    subst hs
    simp at hc
  · simp only [SlabClient.step, he, Option.map_some, Option.some.injEq] at hs
    subst hs
    obtain rfl : d = c := by simpa using hc
    have hmem : d ∈ s.handles ++ [d] := List.mem_append_right _ (.head _)
    have hnum := (hi.whole.reps d (hi.user d hmem).1).numOfSlabs
    rw [show (k'.cache d).numOfSlabs = 0 from (congrArg Cache.numOfSlabs hcache :), eq_comm,
      List.length_eq_zero_iff] at hnum
    refine ⟨V', hi, hmem, (congrArg Cache.ctor hcache :), (congrArg Cache.dtor hcache :),
      fun _ _ => rfl, fun p hp => ?_⟩
    obtain ⟨t, i, hslot⟩ := hp
    have ht := hslot.slab
    unfold View.slabs at ht
    rw [hnum] at ht
    exact absurd ht List.not_mem_nil

/-- A creation that returns a cache has found a slot. -/
theorem fed_of_handles {size : Nat} {ctor dtor : Ptr}
    (hs : s.step (.create size ctor dtor) = some s') (hc : s'.handles = s.handles ++ [c]) :
    s.kmem.Available := by
  obtain ⟨⟨r, k'⟩, he, rfl⟩ := Option.map_eq_some_iff.1 hs
  cases r with
  | none => simp at hc
  | some d => exact create_available he

/-- **Constructors and destructors.** From its creation on, a cache with both runs them only on its
slots, which it can hand out. At every slot they alternate, starting with the constructor; the
constructor is what comes right before the slot is handed out, and after the last holder has given
it back. `kmem_cache_destroy` runs the destructor at last, and it returns in every run in which no
creation has failed. -/
theorem callbacks_alternate {heap : HeapBounds} {space size : Nat} {blockNum : Int}
    {ops₀ ops : List SlabCall} {s₀ s₁ : SlabClient}
    (hinit : kmem_init heap 12 space blockNum = some k)
    (hrun₀ : Run Ok SlabClient.step (boot k) ops₀ s₀) (hsize : 1 ≤ size ∧ size ≤ 4020)
    (hcreate : s₀.step (.create size (some f) (some g)) = some s₁)
    (hc : s₁.handles = s₀.handles ++ [c]) (hrun : Run Ok SlabClient.step s₁ ops s)
    (hkeep : .destroy c ∉ ops) :
    ∃ V, s.Inv V [] ∧ c ∈ s.handles ∧
      (∀ p fn, (p, .call fn) ∈ history c s₁ ops → IsSlot s.kmem V c p) ∧
      (∀ p, IsSlot s.kmem V c p →
        (∃ n s', Run Ok SlabClient.step s (List.replicate n (.alloc c)) s' ∧ (c, p) ∈ s'.live) ∧
        ∃ n, callbacks (eventsAt p (history c s₁ ops)) =
          (List.replicate n [f, g]).flatten ++ [f]) ∧
      (∀ p l₁ l₂, eventsAt p (history c s₁ ops) = l₁ ++ .given :: l₂ →
        ∃ l₀, l₁ = l₀ ++ [.call f] ∧ ∀ l₃ l₄, l₀ = l₃ ++ .given :: l₄ → .taken ∈ l₄) ∧
      (∀ s', s.step (.destroy c) = some s' →
        (∀ p, IsSlot s.kmem V c p →
          ∃ n, callbacks (eventsAt p (history c s₁ (ops ++ [.destroy c]))) =
            (List.replicate (n + 1) [f, g]).flatten) ∧
        ∀ p, ¬ IsSlot s.kmem V c p → eventsAt p (history c s₁ (ops ++ [.destroy c])) = []) ∧
      (Run (fun s op => s.Ok op ∧ s.Fed op) SlabClient.step (boot k) ops₀ s₀ →
        Run (fun s op => s.Ok op ∧ s.Fed op) SlabClient.step s₁ ops s →
        ∃ s', s.step (.destroy c) = some s') := by
  obtain ⟨V₀, hi₀⟩ := run_inv (boot_inv hinit) hrun₀
  have hok : s₀.Ok (.create size (some f) (some g)) := ⟨hsize.1, by
    have := hsize.2
    unfold blockSize
    omega⟩
  obtain ⟨V, hi, hl⟩ := lives_run hrun (hi₀.lives_create hok hcreate hc) hkeep
  rw [List.nil_append] at hl
  have hend : ∀ s', s.step (.destroy c) = some s' → ∀ p,
      eventsAt p (history c s₁ (ops ++ [.destroy c])) =
        eventsAt p (history c s₁ ops) ++ if p ∈ Inv.slotList s.kmem V c then [.call g] else [] := by
    intro s' hs' p
    rw [history_append hrun, eventsAt_append, history, hs', Option.elim_some, history,
      List.append_nil, hi.destroy_events hl hs', eventsAt_map _ (hi.slotList_nodup hl.mem)]
  refine ⟨V, hi, hl.mem, fun p fn hm => ?_, fun p hp => ⟨?_, ?_⟩, fun p l₁ l₂ he => ?_,
    fun s' hs' => ⟨fun p hp => ?_, fun p hp => ?_⟩, fun hfed₀ hfed => ?_⟩
  · by_contra hp
    have hm' : .call fn ∈ eventsAt p (history c s₁ ops) :=
      List.mem_filterMap.2 ⟨_, hm, by rw [if_pos rfl]⟩
    rw [hl.outside p hp] at hm'
    exact absurd hm' List.not_mem_nil
  · exact hi.hand_out (fun _ => id) hl.mem hp
  · obtain ⟨n, hn⟩ := callbacks_eq (hl.inside p hp)
    refine ⟨n, hn.trans ?_⟩
    split <;> rfl
  · by_cases hp : IsSlot s.kmem V c p
    · have hin := hl.inside p hp
      rw [he] at hin
      exact given_after hin
    · rw [hl.outside p hp] at he
      simp at he
  · obtain ⟨n, hn⟩ := callbacks_eq (hl.inside p hp)
    refine ⟨n, ?_⟩
    rw [hend s' hs', if_pos ((hi.mem_slotList hl.mem).2 hp), callbacks, List.filterMap_append]
    unfold callbacks at hn
    rw [hn, List.replicate_succ', List.flatten_append]
    split <;> simp [Phase.constructed]
  · rw [hend s' hs', if_neg fun hm => hp ((hi.mem_slotList hl.mem).1 hm), List.append_nil]
    exact hl.outside p hp
  · obtain ⟨W, hW, hu⟩ := run_unbroken (boot_unbroken hinit)
      (hfed₀.trans (.cons ⟨hok, fed_of_handles hcreate hc⟩ hcreate hfed))
    rcases hW.destroy hl.mem with ⟨hne, -⟩ | ⟨k', V', he, -⟩
    · exact absurd hu.1 hne
    · unfold SlabClient.step
      simp only [he]
      exact ⟨_, rfl⟩

theorem callbacks_alternate_heap128 : ∃ k s₁ s V,
    kmem_init Buddy.heap128 12 Buddy.heap128.startAddr 4096 = some k ∧
    (boot k).step (.create 64 (some 1) (some 2)) = some s₁ ∧
    Run (fun s op => s.Ok op ∧ s.Fed op) SlabClient.step s₁
      [.alloc 2147554976, .free 2147554976 2147557684] s ∧
    ∀ p, IsSlot s.kmem V 2147554976 p →
      ∃ n, callbacks (eventsAt p (history 2147554976 s₁ ([.alloc 2147554976,
        .free 2147554976 2147557684] ++ [.destroy 2147554976]))) =
          (List.replicate (n + 1) [1, 2]).flatten := by
  have h : ((kmem_init Buddy.heap128 12 Buddy.heap128.startAddr 4096).bind fun k =>
      (SlabClient.step (boot k) (.create 64 (some 1) (some 2))).bind fun s₁ =>
      (exec (fun s op => s.Ok op ∧ s.Fed op) SlabClient.step s₁
        [.alloc 2147554976, .free 2147554976 2147557684]).bind fun _ =>
        if s₁.handles = [2147554976] then some () else none) = some () := by
    decide +kernel
  obtain ⟨k, hk, h⟩ := Option.bind_eq_some_iff.1 h
  obtain ⟨s₁, h₁, h⟩ := Option.bind_eq_some_iff.1 h
  obtain ⟨s, h₂, h⟩ := Option.bind_eq_some_iff.1 h
  obtain ⟨hc, -⟩ := Option.ite_none_right_eq_some.1 h
  have hrun := Run.of_exec h₂
  obtain ⟨V, -, -, -, -, -, hend, hdef⟩ := callbacks_alternate hk .nil (by decide) h₁ hc
    (hrun.mono fun _ _ => And.left) (by simp)
  obtain ⟨s', hs'⟩ := hdef .nil hrun
  exact ⟨k, s₁, s, V, hk, h₁, hrun, (hend s' hs').1⟩

end SlabClient

end SlabKernel
