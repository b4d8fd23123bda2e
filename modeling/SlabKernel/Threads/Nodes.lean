import SlabKernel.Slab.Exhaustion
import SlabKernel.Threads.Runs

/-!
# Semaphores, waiting and sleeping without memory

`Machine` joins the thread part of the kernel with the slab allocator that its objects come from:
the caches of semaphores, of nodes for waiting and of nodes for sleeping threads, the last two
created when the first node is needed. No caller looks whether it got an object, or a cache. So
opening a semaphore, a `wait` that blocks and a sleep use a null pointer iff their cache has no
supply (`survives_iff`), in each state of the two parts.
-/

namespace SlabKernel

open CachePool Runs

/-- `sizeof(BlockedQueue)` and `sizeof(SleepQueue)`. -/
abbrev sizeofBlockedQueue : Nat := 16

abbrev sizeofSleepQueue : Nat := 32

/-- The two parts of the kernel. The nodes of the sleeping and the waiting threads are live objects
of their caches. -/
structure Machine where
  kernel : Kernel
  slabs : SharedClient
  cacheSem : Nat
  cacheBlocked : Ptr
  cacheSleep : Ptr
  sem : cacheSem ∈ slabs.client.handles
  blocked : ∀ c, cacheBlocked = some c → c ∈ slabs.client.handles
  sleep : ∀ c, cacheSleep = some c → c ∈ slabs.client.handles
  nodes : ∀ n ∈ kernel.nodes, ∃ c, cacheBlocked = some c ∧ (c, n) ∈ slabs.client.live
  sleeps : ∀ n ∈ kernel.sleeps, ∃ c, cacheSleep = some c ∧ (c, n) ∈ slabs.client.live

/-- The beginning of `createNode` and `getNode`: the node and the allocator. The handle of a new cache
is not tested; `kmem_cache_alloc` is undefined on the null handle. -/
def Kmem.newNode (k : Kmem) (cache : Ptr) (size : Nat) : Option (Ptr × Kmem) := do
  let (cachep, k) ← match cache with
    | some c => some (some c, k)
    | none => kmem_cache_create k size none none
  let c ← cachep
  kmem_cache_alloc k c

namespace Machine

def createNode (m : Machine) : Option (Ptr × Kmem) :=
  m.slabs.client.kmem.newNode m.cacheBlocked sizeofBlockedQueue

def getNode (m : Machine) : Option (Ptr × Kmem) :=
  m.slabs.client.kmem.newNode m.cacheSleep sizeofSleepQueue

/-- `SEM_OPEN`: what it leaves of both parts. -/
def semOpen (m : Machine) (init : Nat) : Option (Kernel × Kmem) := do
  let (semaphore, kmem) ← kmem_cache_alloc m.slabs.client.kmem m.cacheSem
  let k ← KernelSem.createSem m.kernel semaphore init
  return (k, kmem)

/-- `SEM_WAIT`; the thread that blocks takes a node. -/
def wait (m : Machine) (s : Nat) : Option (Kernel × Kmem) := do
  if toInt32 ((m.kernel.sem s).val - 1) < 0 then
    let (node, kmem) ← m.createNode
    let k ← KernelSem.wait m.kernel s node
    return (k, kmem)
  else
    let k ← KernelSem.wait m.kernel s none
    return (k, m.slabs.client.kmem)

/-- `TIME_SLEEP`. -/
def timeSleep (m : Machine) (time : Nat) : Option (Kernel × Kmem) := do
  let (node, kmem) ← m.getNode
  let k ← Riscv.timeSleep m.kernel time node
  return (k, kmem)

end Machine

/-! ## Nodes -/

/-- The buddy allocator after the next creation of a cache. -/
def Kmem.buddyCreated (k : Kmem) : Buddy :=
  if findRecord k addrSpace k.head = some none then (k.buddy.alloc 0).2 else k.buddy

/-- There is an object for a cache that may have to be created first, with a slab of one page. -/
def Kmem.Obtainable (k : Kmem) : Ptr → Prop
  | some c => k.Supply c
  | none => k.Available ∧ (k.buddyCreated.alloc 0).1 ≠ none

variable {k k' : Kmem} {V : View} {extra : List (Nat × Nat)} {c size : Nat} {ctor dtor cache : Ptr}

theorem Cache.construct_buddy (h : Cache.construct k c size ctor dtor = some k') :
    k'.buddy = k.buddy := by
  unfold Cache.construct at h
  simp only at h
  obtain ⟨r, -, h⟩ := Option.bind_eq_some_iff.1 h
  obtain rfl := Option.some.inj h
  cases k.cacheTail <;> rfl

theorem createRecord_buddy {r : Ptr} (h : createRecord k = some (r, k')) :
    k'.buddy = (k.buddy.alloc 0).2 := by
  unfold createRecord at h
  split at h
  · rename_i b hb
    obtain ⟨-, rfl⟩ := Prod.mk.inj (Option.some.inj h)
    rw [hb]
  · rename_i b hb
    obtain ⟨n, -, h⟩ := Option.bind_eq_some_iff.1 h
    obtain ⟨-, rfl⟩ := Prod.mk.inj (Option.some.inj h)
    rw [hb]

theorem allocateSlot_buddy {r : Ptr} (h : allocateSlot k = some (r, k')) :
    k'.buddy = k.buddyCreated := by
  -- the end takes a slot of the record `curr`
  have hnone : ∀ k₁ : Kmem, some ((none : Ptr), k₁) = some (r, k') → k'.buddy = k₁.buddy := by
    intro k₁ h
    rw [← (Prod.mk.inj (Option.some.inj h)).2]
  have htake : ∀ (curr : Nat) (k₁ : Kmem), ((k₁.record curr).freeSlot.bind fun ret =>
      some (some ret, k₁.modRecord curr fun x =>
        { x with freeSlot := k₁.freeLink ret, numOfFreeSlots := x.numOfFreeSlots - 1 })) =
      some (r, k') → k'.buddy = k₁.buddy := by
    intro curr k₁ h
    obtain ⟨ret, -, h⟩ := Option.bind_eq_some_iff.1 h
    rw [← (Prod.mk.inj (Option.some.inj h)).2]
    rfl
  unfold allocateSlot at h
  obtain ⟨curr, hfind, h⟩ := Option.bind_eq_some_iff.1 h
  unfold Kmem.buddyCreated
  cases curr with
  | some curr =>
    rw [if_neg (by rw [hfind]; simp)]
    exact htake curr k h
  | none =>
    rw [if_pos hfind]
    obtain ⟨⟨curr, k₁⟩, hrec, h⟩ := Option.bind_eq_some_iff.1 h
    rw [← createRecord_buddy hrec]
    cases ht : k₁.tail with
    | none =>
      simp only [ht] at h
      cases curr with
      | none => exact hnone { k₁ with head := none, tail := none } h
      | some curr => exact htake curr { k₁ with head := some curr, tail := some curr } h
    | some tail =>
      simp only [ht] at h
      cases curr with
      | none =>
        exact hnone { k₁.modRecord tail fun x => { x with next := none } with tail := none } h
      | some curr =>
        exact htake curr
          { k₁.modRecord tail fun x => { x with next := some curr } with tail := some curr } h

theorem kmem_cache_create_buddy {r : Ptr}
    (h : kmem_cache_create k size ctor dtor = some (r, k')) : k'.buddy = k.buddyCreated := by
  obtain ⟨⟨slot, k₁⟩, hslot, h⟩ := Option.bind_eq_some_iff.1 h
  cases slot with
  | none => rw [← (Prod.mk.inj (Option.some.inj h)).2, allocateSlot_buddy hslot]
  | some this =>
    obtain ⟨k₂, hc, h⟩ := Option.bind_eq_some_iff.1 h
    rw [← (Prod.mk.inj (Option.some.inj h)).2, Cache.construct_buddy hc, allocateSlot_buddy hslot]

/-- A node is obtained iff the state before has one; it is not live before. -/
theorem newNode_spec {s : SlabClient} (h : s.Inv V extra) (hsize : 1 ≤ size) (hsize' : size ≤ 4020)
    (hc : ∀ c, cache = some c → c ∈ s.handles) :
    s.kmem.newNode cache size = none ∧ ¬ s.kmem.Obtainable cache ∨
    ∃ r k', s.kmem.newNode cache size = some (r, k') ∧ (r ≠ none ↔ s.kmem.Obtainable cache) ∧
      ∀ c n, cache = some c → r = some n → (c, n) ∉ s.live := by
  cases cache with
  | some c =>
    obtain ⟨hcm, ho, -⟩ := h.user c (hc c rfl)
    obtain ⟨r, k', V', he, -, hg, -, -, hsupply, -⟩ := h.whole.alloc_object hcm ho (2 ^ 64 - 1)
    refine .inr ⟨r, k', he, hsupply, fun d n hd hr hl => ?_⟩
    obtain rfl := Option.some.inj hd
    exact hg.iff.1 n hr ((h.live c (hc c rfl) n).1 hl)
  | none =>
    have hbound : size + 76 ≤ 2 ^ 12 * blockSize := by
      unfold blockSize
      omega
    rcases h.create none none hsize hbound with
      ⟨ha, k₁, V₁, hn, -⟩ | ⟨ha, c, k₁, V₁, o, he, hi, -, -, -, hcache, horder, -⟩
    · left
      unfold Kmem.newNode
      simp only [hn, Option.bind_eq_bind, Option.bind_some, Option.bind_none, true_and]
      exact fun hob => ha hob.1
    · right
      have hmem : c ∈ s.handles ++ [c] := List.mem_append_right _ (.head _)
      obtain ⟨hcm, ho, -⟩ := hi.user c hmem
      obtain ⟨r, k', V', he', -, -, -, -, hsupply, -⟩ :=
        hi.whole.alloc_object hcm ho (2 ^ 64 - 1)
      rw [Cache.getOrder_object hsize', Option.some.injEq, Prod.mk.injEq] at horder
      obtain ⟨rfl, -⟩ := horder
      have hpart : (k₁.cache c).slabsPartial = none := (congrArg Cache.slabsPartial hcache :)
      have hfree : (k₁.cache c).slabsFree = none := (congrArg Cache.slabsFree hcache :)
      have hzero : (k₁.cache c).slabOrder = 0 := (congrArg Cache.slabOrder hcache :)
      have hsup : k₁.Supply c ↔ (s.kmem.buddyCreated.alloc 0).1 ≠ none := by
        unfold Kmem.Supply
        rw [hpart, hfree, hzero, kmem_cache_create_buddy he]
        simp only [and_self, forall_const, Nat.cast_zero]
      refine ⟨r, k', ?_, ?_, fun d n hd => nomatch hd⟩
      · unfold Kmem.newNode
        simp only [he, Option.bind_eq_bind, Option.bind_some]
        exact he'
      · rw [hsupply, hsup]
        exact (and_iff_right ha).symm

/-! ## The entries -/

namespace Machine

variable {m : Machine} {s : Nat}

/-- Without an object the entries write through a null pointer. -/
theorem semOpen_none {init : Nat}
    (he : kmem_cache_alloc m.slabs.client.kmem m.cacheSem = some (none, k')) :
    m.semOpen init = none := by
  unfold semOpen
  simp only [he, Option.bind_eq_bind, Option.bind_some]
  rfl

theorem wait_none (hlt : toInt32 ((m.kernel.sem s).val - 1) < 0)
    (he : m.createNode = some (none, k')) : m.wait s = none := by
  have hblock : KernelSem.wait m.kernel s none = none := by
    unfold KernelSem.wait
    simp only [Kernel.modSem, Function.update_self, if_pos hlt]
    unfold KernelSem.block KernelSem.insert
    cases m.kernel.running <;> rfl
  unfold wait
  simp only [if_pos hlt, he, hblock, Option.bind_eq_bind, Option.bind_some, Option.bind_none]

theorem timeSleep_none {time : Nat} (he : m.getNode = some (none, k')) :
    m.timeSleep time = none := by
  have hsleep : Riscv.timeSleep m.kernel time none = none := by
    unfold Riscv.timeSleep Sleeping.add
    cases m.kernel.running <;> rfl
  unfold timeSleep
  simp only [he, hsleep, Option.bind_eq_bind, Option.bind_some, Option.bind_none]

theorem semOpen_iff (h : m.slabs.Inv V) (init : Nat) :
    m.semOpen init ≠ none ↔ m.slabs.client.kmem.Supply m.cacheSem := by
  obtain ⟨hcm, ho, -⟩ := h.user m.cacheSem m.sem
  obtain ⟨r, k', V', he, -, -, -, -, hsupply, -⟩ := h.whole.alloc_object hcm ho (2 ^ 64 - 1)
  have he' : kmem_cache_alloc m.slabs.client.kmem m.cacheSem = some (r, k') := he
  rw [← hsupply]
  cases r with
  | none => exact iff_of_false (not_not_intro (semOpen_none he')) fun hn => hn rfl
  | some a =>
    unfold semOpen
    simp only [he', Option.bind_eq_bind, Option.bind_some]
    exact iff_of_true (fun hn => nomatch hn) fun hn => nomatch hn

/-- A thread that blocks needs a node. -/
theorem wait_iff (h : m.slabs.Inv V) {A : Sys} (hr : Rep m.kernel A) (hst : A.Stable)
    (hidle : m.kernel.running ≠ m.kernel.idleThread) (hs : s ∈ m.kernel.sems) :
    m.wait s ≠ none ↔
      1 ≤ (m.kernel.sem s).val ∨ m.slabs.client.kmem.Obtainable m.cacheBlocked := by
  obtain ⟨t, -, hinv⟩ := id hst
  have hval : toInt32 ((m.kernel.sem s).val - 1) = (m.kernel.sem s).val - 1 := by
    rw [hr.val]
    exact (Sys.toInt32_val hinv (hr.sems ▸ hs)).1
  by_cases hpos : 1 ≤ (m.kernel.sem s).val
  · refine iff_of_true ?_ (.inl hpos)
    have hnot : ¬ (m.kernel.sem s).val - 1 < 0 := by omega
    unfold wait KernelSem.wait
    simp only [Kernel.modSem, Function.update_self, hval, if_neg hnot]
    exact Option.some_ne_none _
  · have hlt : toInt32 ((m.kernel.sem s).val - 1) < 0 := by
      rw [hval]
      omega
    rw [or_iff_right hpos]
    rcases newNode_spec h (show 1 ≤ sizeofBlockedQueue by decide) (by decide) m.blocked with
      ⟨hn, hob⟩ | ⟨r, k', he, hob, hfresh⟩
    · refine iff_of_false (not_not_intro ?_) hob
      unfold wait createNode
      simp only [if_pos hlt, hn, Option.bind_eq_bind, Option.bind_none]
    · rw [← hob]
      cases r with
      | none => exact iff_of_false (not_not_intro (wait_none hlt he)) fun hn => hn rfl
      | some n =>
        have hnew : n ∉ m.kernel.nodes := fun hm => by
          obtain ⟨c, hc, hl⟩ := m.nodes n hm
          exact hfresh c n hc rfl hl
        obtain ⟨k, hk, -⟩ := step_rep hr hst (e := .wait s (some n)) ⟨hidle, hs, n, rfl, hnew⟩
        have hk' : KernelSem.wait m.kernel s (some n) = some k := hk
        unfold wait createNode
        simp only [if_pos hlt, he, hk', Option.bind_eq_bind, Option.bind_some]
        exact iff_of_true (Option.some_ne_none _) (Option.some_ne_none _)

/-- So does a thread that sleeps. -/
theorem timeSleep_iff (h : m.slabs.Inv V) {A : Sys} (hr : Rep m.kernel A) (hst : A.Stable)
    (hidle : m.kernel.running ≠ m.kernel.idleThread) {time : Nat} (htime : 1 ≤ time)
    (htime' : time < 2 ^ 64) :
    m.timeSleep time ≠ none ↔ m.slabs.client.kmem.Obtainable m.cacheSleep := by
  rcases newNode_spec h (show 1 ≤ sizeofSleepQueue by decide) (by decide) m.sleep with
    ⟨hn, hob⟩ | ⟨r, k', he, hob, hfresh⟩
  · refine iff_of_false (not_not_intro ?_) hob
    unfold timeSleep getNode
    simp only [hn, Option.bind_eq_bind, Option.bind_none]
  · rw [← hob]
    cases r with
    | none => exact iff_of_false (not_not_intro (timeSleep_none he)) fun hn => hn rfl
    | some n =>
      have hnew : n ∉ m.kernel.sleeps := fun hm => by
        obtain ⟨c, hc, hl⟩ := m.sleeps n hm
        exact hfresh c n hc rfl hl
      obtain ⟨k, hk, -⟩ :=
        step_rep hr hst (e := .sleep time (some n)) ⟨hidle, htime, htime', n, rfl, hnew⟩
      have hk' : Riscv.timeSleep m.kernel time (some n) = some k := hk
      unfold timeSleep getNode
      simp only [he, hk', Option.bind_eq_bind, Option.bind_some]
      exact iff_of_true (fun hn => nomatch hn) fun hn => nomatch hn

/-- **Exhaustion.** In every state of the two parts, each after any run: opening a semaphore
returns, without a write through a null pointer, iff its cache has a supply; a `wait` iff there are
counts left or there is a node; a sleep iff there is a node. -/
theorem survives_iff {e : Boot} {k₀ : Kernel} {es : List Entry} {heap : HeapBounds} {space : Nat}
    {blockNum : Int} {k₁ : Kmem} {ops : List SharedCall} (he : e.Ok) (hboot : e.kernel = some k₀)
    (hrun : Run Kernel.Ok Kernel.step k₀ es m.kernel)
    (hinit : kmem_init heap 12 space blockNum = some k₁)
    (hrun' : Run SharedClient.Ok SharedClient.step (.boot k₁) ops m.slabs) :
    (∀ init, m.semOpen init ≠ none ↔ m.slabs.client.kmem.Supply m.cacheSem) ∧
    (m.kernel.running ≠ m.kernel.idleThread →
      (∀ s ∈ m.kernel.sems, m.wait s ≠ none ↔
        1 ≤ (m.kernel.sem s).val ∨ m.slabs.client.kmem.Obtainable m.cacheBlocked) ∧
      ∀ time, 1 ≤ time → time < 2 ^ 64 →
        (m.timeSleep time ≠ none ↔ m.slabs.client.kmem.Obtainable m.cacheSleep)) := by
  obtain ⟨V, h⟩ := SharedClient.run_inv (SharedClient.boot_inv hinit) hrun'
  obtain ⟨k, hk, hrep⟩ := Boot.represented he
  rw [hboot, Option.some.injEq] at hk
  obtain ⟨A, hr, hst⟩ := (hk ▸ hrep).run hrun
  exact ⟨fun init => semOpen_iff h init, fun hidle => ⟨fun s hs => wait_iff h hr hst hidle hs,
    fun time h1 h2 => timeSleep_iff h hr hst hidle h1 h2⟩⟩

/-- The kernel after boot, without a node. -/
def ofBoot (k : Kernel) (s : SharedClient) (c : Nat) (hc : c ∈ s.client.handles)
    (hnodes : k.nodes = []) (hsleeps : k.sleeps = []) : Machine where
  kernel := k
  slabs := s
  cacheSem := c
  cacheBlocked := none
  cacheSleep := none
  sem := hc
  blocked _ h := nomatch h
  sleep _ h := nomatch h
  nodes n hn := by
    rw [hnodes] at hn
    cases hn
  sleeps n hn := by
    rw [hsleeps] at hn
    cases hn

theorem survives_iff_heap128 : ∃ (k₀ : Kernel) (k₁ : Kmem) (m : Machine), boot128.kernel = some k₀ ∧
    kmem_init Buddy.heap128 12 Buddy.heap128.startAddr 4096 = some k₁ ∧
    Run Kernel.Ok Kernel.step k₀ [] m.kernel ∧
    Run SharedClient.Ok SharedClient.step (.boot k₁) [.call (.create 24 none none)] m.slabs ∧
    m.semOpen 5 ≠ none := by
  obtain ⟨k₀, hboot, hnodes, hsleeps⟩ : ∃ k₀, boot128.kernel = some k₀ ∧ k₀.nodes = [] ∧
      k₀.sleeps = [] := ⟨_, rfl, rfl, rfl⟩
  have h : ((kmem_init Buddy.heap128 12 Buddy.heap128.startAddr 4096).bind fun k =>
      (SharedClient.step (.boot k) (.call (.create 24 none none))).bind fun s =>
        if 2147554976 ∈ s.client.handles ∧ (s.client.kmem.buddy.alloc
          (s.client.kmem.cache 2147554976).slabOrder).1 ≠ none then some () else none) =
      some () := by
    decide +kernel
  obtain ⟨k₁, hk, h⟩ := Option.bind_eq_some_iff.1 h
  obtain ⟨s, hs, h⟩ := Option.bind_eq_some_iff.1 h
  obtain ⟨⟨hc, hsupply⟩, -⟩ := Option.ite_none_right_eq_some.1 h
  have hrun : Run SharedClient.Ok SharedClient.step (.boot k₁) [.call (.create 24 none none)] s :=
    .cons (.inl ⟨by decide, by decide⟩) hs .nil
  let m := ofBoot k₀ s _ hc hnodes hsleeps
  refine ⟨k₀, k₁, m, hboot, hk, .nil, hrun, ?_⟩
  exact ((survives_iff (m := m) boot128_ok hboot .nil hk hrun).1 5).2 fun _ => hsupply

/-- With every block taken, none of the three operations gets its object. -/
theorem survives_fails : ∃ (k₀ : Kernel) (k₁ : Kmem) (m : Machine), boot128.kernel = some k₀ ∧
    kmem_init Buddy.heap128 12 Buddy.heap128.startAddr 4096 = some k₁ ∧
    Run Kernel.Ok Kernel.step k₀ [] m.kernel ∧
    Run SharedClient.Ok SharedClient.step (.boot k₁) (.call (.create 24 none none) ::
      [11, 10, 9, 8, 7, 6, 5, 4, 3, 2, 1, 0].map .take) m.slabs ∧
    (kmem_cache_alloc m.slabs.client.kmem m.cacheSem).map Prod.fst = some none ∧
    m.semOpen 5 = none ∧ 1 ∈ m.kernel.sems ∧ (m.kernel.sem 1).val = 0 ∧
    m.createNode.map Prod.fst = some none ∧ m.wait 1 = none ∧
    m.getNode.map Prod.fst = some none ∧ m.timeSleep 5 = none := by
  obtain ⟨k₀, hboot, hnodes, hsleeps, hsem, hval⟩ : ∃ k₀, boot128.kernel = some k₀ ∧
      k₀.nodes = [] ∧ k₀.sleeps = [] ∧ 1 ∈ k₀.sems ∧ (k₀.sem 1).val = 0 :=
    ⟨_, rfl, rfl, rfl, by decide, by decide⟩
  have h : ((kmem_init Buddy.heap128 12 Buddy.heap128.startAddr 4096).bind fun k =>
      ((SharedCall.call (.create 24 none none) ::
        [11, 10, 9, 8, 7, 6, 5, 4, 3, 2, 1, 0].map SharedCall.take).foldlM SharedClient.step
          (.boot k)).bind fun s =>
        if 2147554976 ∈ s.client.handles ∧
          (kmem_cache_alloc s.client.kmem 2147554976).map Prod.fst = some none ∧
          (s.client.kmem.newNode none sizeofBlockedQueue).map Prod.fst = some none ∧
          (s.client.kmem.newNode none sizeofSleepQueue).map Prod.fst = some none
        then some () else none) = some () := by
    decide +kernel
  obtain ⟨k₁, hk, h⟩ := Option.bind_eq_some_iff.1 h
  obtain ⟨s, hs, h⟩ := Option.bind_eq_some_iff.1 h
  obtain ⟨⟨hc, halloc, hblocked, hsleep⟩, -⟩ := Option.ite_none_right_eq_some.1 h
  let m := ofBoot k₀ s _ hc hnodes hsleeps
  obtain ⟨⟨p₂, k₂⟩, he₂, rfl : p₂ = none⟩ := Option.map_eq_some_iff.1 halloc
  obtain ⟨⟨p₃, k₃⟩, he₃, rfl : p₃ = none⟩ := Option.map_eq_some_iff.1 hblocked
  obtain ⟨⟨p₄, k₄⟩, he₄, rfl : p₄ = none⟩ := Option.map_eq_some_iff.1 hsleep
  refine ⟨k₀, k₁, m, hboot, hk, .nil, .of_foldlM (fun op hop t => ?_) hs, halloc, ?_, hsem, hval,
    hblocked, ?_, hsleep, ?_⟩
  · cases hop with
    | head => exact .inl ⟨by decide, by decide⟩
    | tail _ hop =>
      obtain ⟨o, -, rfl⟩ := List.mem_map.1 hop
      exact trivial
  · exact semOpen_none he₂
  · refine wait_none ?_ he₃
    rw [show (m.kernel.sem 1).val = 0 from hval]
    decide
  · exact timeSleep_none he₄

end Machine

end SlabKernel
