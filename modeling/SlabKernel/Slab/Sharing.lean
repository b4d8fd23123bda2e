import SlabKernel.Slab.CachePool

/-!
# The slab allocator among other users of the buddy allocator

The slab allocator takes its pages from a buddy allocator that also serves others, the page tables
for one. Here the clients' calls are interleaved with blocks that others take and give back
(`SharedClient`), so that the buddy allocator may run out of blocks before any call. The clients'
invariant holds with the blocks of the others beside those of the slab allocator
(`SharedClient.run_inv`). A creation that finds no block is legal: it returns the null handle, and the
clients go on.
-/

namespace SlabKernel

open Function (update update_self update_of_ne)
open PtrList CachePool Runs

variable {k k' : Kmem} {V V' : View} {extra live : List (Nat × Nat)} {c d p : Nat}

namespace SlabClient

variable {s s' : SlabClient}

/-- The clients do not see what others do to the buddy allocator. -/
theorem Inv.withBuddy {b : Buddy} (h : s.Inv V extra)
    (hb : Buddy.Inv b (V.blocks s.kmem ++ live)) (hg : Buddy.SameGeom s.kmem.buddy b) :
    ({ s with kmem := { s.kmem with buddy := b } } : SlabClient).Inv V live := by
  have hs : Served s.kmem { s.kmem with buddy := b } V V live fun _ => False :=
    h.whole.withBuddy hb hg.start _
  have hlb : ∀ i p, LiveBuffer { s.kmem with buddy := b } V i p ↔ LiveBuffer s.kmem V i p :=
    fun i p => liveBuffer_frame hs.frame rfl fun i a ha => ⟨h.whole.buffers i a ha, not_false⟩
  refine { h with
    whole := hs.whole h.whole
    live := fun c hc p => ?_
    buffer := fun q hq => ?_
    recorded := fun i p hp => h.recorded i p ((hlb i p).1 hp) }
  · rw [h.live c hc p]
    exact (hs.frame.live (h.user c hc).1 not_false).symm
  · obtain ⟨h1, h2, h3⟩ := h.buffer q hq
    exact ⟨h1, h2, (hlb _ _).2 h3⟩

end SlabClient

/-- The clients, and the blocks of the other users of the buddy allocator. -/
structure SharedClient where
  client : SlabClient
  others : List (Nat × Nat)

inductive SharedCall
  | call (op : SlabCall)
  | take (order : Nat)
  | give (addr order : Nat)

namespace SharedClient

def step (s : SharedClient) : SharedCall → Option SharedClient
  | .call op => (s.client.step op).map fun client => { s with client }
  | .take order =>
    let r := s.client.kmem.buddy.alloc order
    some {
      client := { s.client with kmem := { s.client.kmem with buddy := r.2 } }
      others := r.1.toList.map (·, order) ++ s.others }
  | .give addr order => (s.client.kmem.free (some addr) order).map fun kmem =>
    { client := { s.client with kmem }, others := s.others.erase (addr, order) }

/-- The clients' calls are legal; others give back what they took. -/
def Ok (s : SharedClient) : SharedCall → Prop
  | .call op => s.client.Legal op
  | .take _ => True
  | .give addr order => (addr, order) ∈ s.others

/-- The clients' record is right, beside the blocks of the others. -/
abbrev Inv (s : SharedClient) (V : View) : Prop := s.client.Inv V s.others

variable {s s' : SharedClient}

/-- A step of another user leaves the clients and all but the buddy allocator alone. -/
theorem Inv.other {op : SharedCall} (h : s.Inv V) (hok : s.Ok op) (hop : ∀ c, op ≠ .call c) :
    ∃ b others, s.step op = some { client := { s.client with
      kmem := { s.client.kmem with buddy := b } }, others } ∧
      SharedClient.Inv { client := { s.client with
        kmem := { s.client.kmem with buddy := b } }, others } V := by
  cases op with
  | call c => exact absurd rfl (hop c)
  | take order =>
    obtain ⟨hg, hinv⟩ := h.whole.buddy.take order
    exact ⟨_, _, rfl, h.withBuddy hinv hg⟩
  | give addr order =>
    obtain ⟨b, hb, hg, hinv⟩ := h.whole.buddy.give hok
    refine ⟨b, s.others.erase (addr, order), ?_, h.withBuddy hinv hg⟩
    unfold step Kmem.free
    simp only [hb, Option.map_some]

theorem Inv.step {op : SharedCall} (h : s.Inv V) (hok : s.Ok op)
    (hs : SharedClient.step s op = some s') : ∃ V', s'.Inv V' := by
  by_cases hop : ∀ c, op ≠ .call c
  · obtain ⟨b, others, he, hinv⟩ := h.other hok hop
    rw [he, Option.some.injEq] at hs
    exact ⟨V, hs ▸ hinv⟩
  · simp only [not_forall, not_not] at hop
    obtain ⟨c, rfl⟩ := hop
    unfold SharedClient.step at hs
    obtain ⟨client, he, rfl⟩ := Option.map_eq_some_iff.1 hs
    obtain ⟨V', hinv, -⟩ := SlabClient.Inv.step h hok he
    exact ⟨V', hinv⟩

/-- The machine after `kmem_init`, before others have taken blocks. -/
def boot (k : Kmem) : SharedClient := ⟨SlabClient.boot k, []⟩

theorem boot_inv {heap : HeapBounds} {space : Nat} {blockNum : Int}
    (h : kmem_init heap 12 space blockNum = some k) : ∃ V, (boot k).Inv V :=
  SlabClient.boot_inv h

theorem run_inv {ops : List SharedCall} (h : ∃ V, s.Inv V)
    (hrun : Run Ok SharedClient.step s ops s') : ∃ V, s'.Inv V := by
  refine hrun.inv (fun s => ∃ V, s.Inv V) ?_ h
  intro s₁ op s₂ h₁ hok hs
  obtain ⟨V, h₁⟩ := h₁
  exact h₁.step hok hs

end SharedClient

end SlabKernel
