import SlabKernel.Lib.Shelves
import SlabKernel.Slab.Model

/-!
# The lists of slabs

A cache keeps its slabs on three lists, which form `Shelves` over the links of the slabs. `relink`
gives the slabs new links and groups and one cache a new value; every list operation of the code is
one `relink` (`moveFree_relink`, `moveSlab_relink`), and on `Listed` states it moves one slab
(`moveFree_spec`, `moveSlab_spec`).
-/

namespace SlabKernel

open Function (update update_self update_of_ne update_eq_self)
open PtrList

/-! ## Heads and links -/

/-- The first slab of a list. -/
def Cache.first (C : Cache) : SlabGroup → Ptr
  | .FULL => C.slabsFull
  | .PARTIAL => C.slabsPartial
  | .FREE => C.slabsFree

def Cache.setFirst (C : Cache) (p : Ptr) : SlabGroup → Cache
  | .FULL => { C with slabsFull := p }
  | .PARTIAL => { C with slabsPartial := p }
  | .FREE => { C with slabsFree := p }

theorem Cache.first_setFirst (C : Cache) (p : Ptr) (g : SlabGroup) :
    (C.setFirst p g).first = update C.first g p := by
  funext g'
  cases g <;> cases g' <;> simp [Cache.first, Cache.setFirst]

/-- A cache without its lists. -/
def Cache.body (C : Cache) : Cache :=
  { C with slabsFull := none, slabsPartial := none, slabsFree := none }

@[simp] theorem Cache.body_setFirst (C : Cache) (p : Ptr) (g : SlabGroup) :
    (C.setFirst p g).body = C.body := by
  cases g <;> rfl

/-- A slab without its links and its group. -/
def Slab.body (S : Slab) : Slab := { S with next := none, prev := none, group := .FREE }

namespace Kmem

/-- New links and groups for the slabs, and a new value for the cache `c`. -/
def relink (k : Kmem) (c : Nat) (next prev : Nat → Ptr) (group : Nat → SlabGroup) (C : Cache) :
    Kmem :=
  { k with
    slab := fun s => { k.slab s with next := next s, prev := prev s, group := group s }
    cache := update k.cache c C }

variable {k : Kmem} {c s : Nat} {N P : Nat → Ptr} {G : Nat → SlabGroup} {C : Cache}

theorem relink_self (k : Kmem) (c : Nat) : k.relink c (fun s => (k.slab s).next)
    (fun s => (k.slab s).prev) (fun s => (k.slab s).group) (k.cache c) = k := by
  unfold relink
  rw [update_eq_self]

@[simp] theorem relink_cache : (k.relink c N P G C).cache c = C := update_self _ _ _

@[simp] theorem relink_slab_next : ((k.relink c N P G C).slab s).next = N s := rfl

@[simp] theorem relink_slab_prev : ((k.relink c N P G C).slab s).prev = P s := rfl

@[simp] theorem relink_slab_group : ((k.relink c N P G C).slab s).group = G s := rfl

@[simp] theorem relink_modCache (f : Cache → Cache) :
    (k.relink c N P G C).modCache c f = k.relink c N P G (f C) := by
  simp [relink, modCache]

@[simp] theorem relink_next (v : Ptr) :
    (k.relink c N P G C).modSlab s (fun x => { x with next := v }) =
      k.relink c (update N s v) P G C := by
  unfold relink modSlab
  congr 1
  funext a
  by_cases ha : a = s
  · subst ha; simp
  · simp [ha]

@[simp] theorem relink_prev (v : Ptr) :
    (k.relink c N P G C).modSlab s (fun x => { x with prev := v }) =
      k.relink c N (update P s v) G C := by
  unfold relink modSlab
  congr 1
  funext a
  by_cases ha : a = s
  · subst ha; simp
  · simp [ha]

@[simp] theorem relink_group (g : SlabGroup) :
    (k.relink c N P G C).modSlab s (fun x => { x with group := g }) =
      k.relink c N P (update G s g) C := by
  unfold relink modSlab
  congr 1
  funext a
  by_cases ha : a = s
  · subst ha; simp
  · simp [ha]

@[simp] theorem relink_setPrev (p v : Ptr) :
    (k.relink c N P G C).setPrev p v = k.relink c N (setAt P p v) G C := by
  cases p with
  | none => rfl
  | some a => exact relink_prev v

end Kmem

/-! ## The operations as one `relink` -/

section
variable {k : Kmem} {c s : Nat} {N P : Nat → Ptr} {G : Nat → SlabGroup} {C : Cache}
  {grp : SlabGroup}

theorem moveFree_relink (hfirst : C.slabsFree = some s) (hP : P s = none) (hgrp : grp ≠ .FREE) :
    Cache.moveFree (k.relink c N P G C) c s grp =
      some (k.relink c (update (setAt N (P s) (N s)) s (C.first grp))
        (setAt (update (setAt P (N s) (P s)) s none) (C.first grp) (some s)) (update G s grp)
        ((C.setFirst (N s) .FREE).setFirst (some s) grp)) := by
  unfold Cache.moveFree
  cases grp with
  | FREE => exact absurd rfl hgrp
  | FULL => simp [hfirst, hP, setAt, Cache.first, Cache.setFirst]
  | PARTIAL => simp [hfirst, hP, setAt, Cache.first, Cache.setFirst]

theorem moveSlab_relink (hG : G s ≠ .FREE) (hgrp : grp ≠ G s)
    (hfirst : P s = none → C.first (G s) = some s) :
    Cache.moveSlab (k.relink c N P G C) c s grp =
      some (k.relink c (update (setAt N (P s) (N s)) s (C.first grp))
        (setAt (update (setAt P (N s) (P s)) s none) (C.first grp) (some s)) (update G s grp)
        ((C.setFirst (if P s = none then N s else C.first (G s)) (G s)).setFirst (some s) grp)) := by
  have hself : ∀ p, update N p (N s) s = N s := fun p => by
    by_cases hp : s = p
    · subst hp; simp
    · simp [hp]
  unfold Cache.moveSlab
  cases hg : G s with
  | FREE => exact absurd hg hG
  | FULL =>
    rw [hg] at hgrp hfirst
    cases hp : P s with
    | none =>
      have hf : C.slabsFull = some s := hfirst hp
      cases grp with
      | FULL => exact absurd rfl hgrp
      | PARTIAL => simp [hg, hp, hf, setAt, Cache.first, Cache.setFirst]
      | FREE => simp [hg, hp, hf, setAt, Cache.first, Cache.setFirst]
    | some p =>
      cases grp with
      | FULL => exact absurd rfl hgrp
      | PARTIAL => simp [hg, hp, hself, setAt, Cache.first, Cache.setFirst]
      | FREE => simp [hg, hp, hself, setAt, Cache.first, Cache.setFirst]
  | PARTIAL =>
    rw [hg] at hgrp hfirst
    cases hp : P s with
    | none =>
      have hf : C.slabsPartial = some s := hfirst hp
      cases grp with
      | PARTIAL => exact absurd rfl hgrp
      | FULL => simp [hg, hp, hf, setAt, Cache.first, Cache.setFirst]
      | FREE => simp [hg, hp, hf, setAt, Cache.first, Cache.setFirst]
    | some p =>
      cases grp with
      | PARTIAL => exact absurd rfl hgrp
      | FULL => simp [hg, hp, hself, setAt, Cache.first, Cache.setFirst]
      | FREE => simp [hg, hp, hself, setAt, Cache.first, Cache.setFirst]

end

/-! ## Listed slabs -/

/-- The cache `c` has its slabs on the lists `L`, and their groups say so. -/
structure Listed (k : Kmem) (c : Nat) (L : SlabGroup → List Nat) : Prop where
  shelves : Shelves (fun s => (k.slab s).next) (fun s => (k.slab s).prev) (k.cache c).first L
  group : ∀ g, ∀ s ∈ L g, (k.slab s).group = g

/-- The lists after a slab has moved. -/
def moved (L : SlabGroup → List Nat) (g grp : SlabGroup) (s : Nat) : SlabGroup → List Nat :=
  update (update L g ((L g).erase s)) grp (s :: L grp)

/-- Only the links and groups of slabs on the lists `L` and the heads of the cache change. -/
structure Relinked (k : Kmem) (c : Nat) (L : SlabGroup → List Nat) (slab' : Nat → Slab)
    (C' : Cache) : Prop where
  cache : C'.body = (k.cache c).body
  slab : ∀ s, (slab' s).body = (k.slab s).body
  frame : ∀ s, (∀ g, s ∉ L g) → slab' s = k.slab s

variable {k : Kmem} {c s : Nat} {L : SlabGroup → List Nat} {g grp : SlabGroup}

/-- The slabs on the lists. -/
def slabsOf (L : SlabGroup → List Nat) : List Nat := L .FULL ++ L .PARTIAL ++ L .FREE

/-- The order in which `destroyCache` gives the slabs back. -/
theorem slabsOf_perm (L : SlabGroup → List Nat) :
    (slabsOf L).Perm (L .FREE ++ (L .PARTIAL ++ L .FULL)) :=
  List.perm_append_comm.trans (List.perm_append_comm.append_left _)

theorem mem_slabsOf : s ∈ slabsOf L ↔ ∃ g, s ∈ L g := by
  unfold slabsOf
  simp only [List.mem_append]
  constructor
  · rintro ((h | h) | h)
    · exact ⟨_, h⟩
    · exact ⟨_, h⟩
    · exact ⟨_, h⟩
  · intro hx
    obtain ⟨g, h⟩ := hx
    cases g with
    | FULL => exact .inl (.inl h)
    | PARTIAL => exact .inl (.inr h)
    | FREE => exact .inr h

theorem slabsOf_nodup (h : ∀ g, (L g).Nodup) (hd : ∀ g g', ∀ a ∈ L g, a ∈ L g' → g = g') :
    (slabsOf L).Nodup := by
  have hne : ∀ g g', g ≠ g' → ∀ a ∈ L g, ∀ b ∈ L g', a ≠ b := by
    rintro g g' hg a ha b hb rfl
    exact hg (hd g g' a ha hb)
  refine List.nodup_append.2 ⟨List.nodup_append.2 ⟨h _, h _, hne _ _ (by decide)⟩, h _, ?_⟩
  intro a ha b hb
  rcases List.mem_append.1 ha with ha | ha
  · exact hne .FULL .FREE (by decide) a ha b hb
  · exact hne .PARTIAL .FREE (by decide) a ha b hb

theorem moved_perm (hs : s ∈ L g) (hne : grp ≠ g) :
    (slabsOf (moved L g grp s)).Perm (slabsOf L) := by
  refine List.perm_iff_count.2 fun a => ?_
  have hp := (List.perm_cons_erase hs).count_eq a
  have hc : (s :: L grp).count a = (L grp).count a + (if s == a then 1 else 0) := List.count_cons
  rw [List.count_cons] at hp
  generalize (if s == a then 1 else 0) = n at hp hc
  unfold slabsOf moved
  simp only [List.count_append]
  cases g with
  | FULL => cases grp <;> simp [hc] at hne ⊢ <;> omega
  | PARTIAL => cases grp <;> simp [hc] at hne ⊢ <;> omega
  | FREE => cases grp <;> simp [hc] at hne ⊢ <;> omega

/-- A slab after the move: the moved one, or one that was there. -/
theorem mem_moved {g' : SlabGroup} {u : Nat} (hd : ∀ g g', ∀ a ∈ L g, a ∈ L g' → g = g')
    (hnd : (L g).Nodup) (hs : s ∈ L g) (hne : grp ≠ g) (hu : u ∈ moved L g grp s g') :
    u = s ∧ g' = grp ∨ u ∈ L g' ∧ u ≠ s := by
  unfold moved at hu
  by_cases h1 : g' = grp
  · subst h1
    rw [update_self] at hu
    rcases List.mem_cons.1 hu with rfl | hu
    · exact .inl ⟨rfl, rfl⟩
    · exact .inr ⟨hu, fun he => hne (hd g' g s (he ▸ hu) hs)⟩
  · rw [update_of_ne h1] at hu
    by_cases h2 : g' = g
    · subst h2
      rw [update_self] at hu
      exact .inr ⟨List.mem_of_mem_erase hu, fun he => hnd.not_mem_erase (he ▸ hu)⟩
    · rw [update_of_ne h2] at hu
      exact .inr ⟨hu, fun he => h2 (hd g' g s (he ▸ hu) hs)⟩

theorem Listed.relink (h : Listed k c L) (hs : s ∈ L g) (hne : grp ≠ g) :
    let N := fun s => (k.slab s).next
    let P := fun s => (k.slab s).prev
    let C := k.cache c
    let k' := k.relink c (update (setAt N (P s) (N s)) s (C.first grp))
      (setAt (update (setAt P (N s) (P s)) s none) (C.first grp) (some s))
      (update (fun s => (k.slab s).group) s grp)
      ((C.setFirst (if P s = none then N s else C.first g) g).setFirst (some s) grp)
    Listed k' c (moved L g grp s) ∧ Relinked k c L k'.slab (k'.cache c) := by
  intro N P C k'
  have hd := h.shelves.disjoint
  refine ⟨⟨?_, fun g₁ u hu => ?_⟩, ?_, fun _ => rfl, fun u hu => ?_⟩
  · have := h.shelves.move hs hne
    simp only [k', Kmem.relink_cache, Kmem.relink_slab_next, Kmem.relink_slab_prev,
      Cache.first_setFirst]
    exact this
  · simp only [k', Kmem.relink_slab_group]
    rcases mem_moved hd (h.shelves.lists g).nodup hs hne hu with ⟨rfl, rfl⟩ | ⟨hu, hus⟩
    · rw [update_self]
    · rw [update_of_ne hus]
      exact h.group g₁ u hu
  · simp only [k', Kmem.relink_cache, Cache.body_setFirst, C]
  · have hus : u ≠ s := fun he => hu g (he ▸ hs)
    have hl := h.shelves.lists g
    have h1 : P s ≠ some u := fun he => hu g (hl.prev_mem hs he)
    have h2 : N s ≠ some u := fun he => hu g (hl.next_mem hs he)
    have h3 : C.first grp ≠ some u := fun he => hu grp (h.shelves.first_mem he)
    simp only [k', Kmem.relink, update_of_ne hus, setAt_of_ne h1, setAt_of_ne h2, setAt_of_ne h3,
      N, P]

/-- The first free slab moves to the list `grp`. -/
theorem moveFree_spec (grp : SlabGroup) (h : Listed k c L)
    (hfirst : (k.cache c).slabsFree = some s) (hgrp : grp ≠ .FREE) : ∃ slab' C',
      Cache.moveFree k c s grp = some { k with slab := slab', cache := update k.cache c C' } ∧
      Listed { k with slab := slab', cache := update k.cache c C' } c (moved L .FREE grp s) ∧
      Relinked k c L slab' C' := by
  have hf : (k.cache c).first .FREE = some s := hfirst
  have hs : s ∈ L .FREE := h.shelves.first_mem hf
  have hp := ((h.shelves.lists .FREE).prev_none hs).2 hfirst
  have he := moveFree_relink (k := k) (c := c) (N := fun s => (k.slab s).next)
    (P := fun s => (k.slab s).prev) (G := fun s => (k.slab s).group) (C := k.cache c) hfirst hp hgrp
  rw [Kmem.relink_self] at he
  obtain ⟨h1, h2⟩ := h.relink hs hgrp
  rw [if_pos hp] at h1 h2
  rw [Kmem.relink_cache] at h2
  exact ⟨_, _, he, h1, h2⟩

/-- A slab that is not free moves to the list `grp`. -/
theorem moveSlab_spec (grp : SlabGroup) (h : Listed k c L) (hs : s ∈ L g) (hg : g ≠ .FREE)
    (hne : grp ≠ g) :
    ∃ slab' C',
      Cache.moveSlab k c s grp = some { k with slab := slab', cache := update k.cache c C' } ∧
      Listed { k with slab := slab', cache := update k.cache c C' } c (moved L g grp s) ∧
      Relinked k c L slab' C' := by
  have hgs := h.group g s hs
  have he := moveSlab_relink (k := k) (c := c) (N := fun s => (k.slab s).next)
    (P := fun s => (k.slab s).prev) (G := fun s => (k.slab s).group) (C := k.cache c) (s := s)
    (hgs ▸ hg) (hgs ▸ hne)
    (fun hp => hgs ▸ ((h.shelves.lists g).prev_none hs).1 hp)
  rw [Kmem.relink_self, hgs] at he
  obtain ⟨h1, h2⟩ := h.relink hs hne
  rw [Kmem.relink_cache] at h2
  exact ⟨_, _, he, h1, h2⟩

/-! ## What the lists are not about -/

/-- `k'` differs from `k` in the lists and in the slabs only. -/
structure Relisted (k k' : Kmem) : Prop where
  calls : k'.calls = k.calls
  body : ∀ a, (k'.cache a).body = (k.cache a).body

namespace Relisted

variable {k' k'' : Kmem}

theorem refl (k : Kmem) : Relisted k k := ⟨rfl, fun _ => rfl⟩

theorem trans (h : Relisted k k') (h' : Relisted k' k'') : Relisted k k'' :=
  ⟨h'.calls.trans h.calls, fun a => (h'.body a).trans (h.body a)⟩

theorem modSlab {f : Slab → Slab} (h : Relisted k k') : Relisted k (k'.modSlab s f) :=
  ⟨h.calls, h.body⟩

theorem setPrev {p v : Ptr} (h : Relisted k k') : Relisted k (k'.setPrev p v) := by
  cases p with
  | none => exact h
  | some u =>
    unfold Kmem.setPrev
    exact h.modSlab

theorem modCache {f : Cache → Cache} (h : Relisted k k') (hf : ∀ C, (f C).body = C.body) :
    Relisted k (k'.modCache c f) := by
  refine ⟨h.calls, fun a => ?_⟩
  rw [← h.body a]
  unfold Kmem.modCache
  by_cases hac : a = c
  · subst hac
    simp only [update_self, hf]
  · simp only [update_of_ne hac]

end Relisted

theorem Cache.moveFree_relisted {k' : Kmem} (h : Cache.moveFree k c s grp = some k') :
    Relisted k k' := by
  unfold Cache.moveFree at h
  simp only [Option.bind_eq_bind] at h
  obtain ⟨first, -, h⟩ := Option.bind_eq_some_iff.1 h
  split at h <;>
  · obtain rfl := Option.some.inj h
    exact .modCache (.setPrev (.modSlab (.modSlab (.modSlab (.setPrev (.modCache (.refl k)
      fun _ => rfl)))))) fun _ => rfl

theorem Cache.moveSlab_relisted {k' : Kmem} (h : Cache.moveSlab k c s grp = some k') :
    Relisted k k' := by
  unfold Cache.moveSlab at h
  simp only [Option.bind_eq_bind] at h
  split at h
  · obtain ⟨first, -, h⟩ := Option.bind_eq_some_iff.1 h
    split at h <;> cases grp <;>
    · obtain rfl := Option.some.inj h
      exact .modCache (.setPrev (.modSlab (.modSlab (.modSlab (.modCache (.setPrev (.refl k))
        fun _ => rfl))))) fun _ => rfl
  · cases grp <;>
    · obtain rfl := Option.some.inj h
      exact .modCache (.setPrev (.modSlab (.modSlab (.modSlab (.setPrev (.modSlab (.refl k)))))))
        fun _ => rfl

end SlabKernel
