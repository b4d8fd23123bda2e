import SlabKernel.Buddy.Geometry
import SlabKernel.System.Execution

/-!
# The computer from boot on

`main` leaves the computer sound (`boot_sound`): the heap begins behind the memory of the buddy
allocator, the threads of the console have buffers as their stacks, the idle thread a block of the
heap, and the contexts of the new threads overlap nothing.
-/

namespace SlabKernel

open Function (update update_self update_of_ne)
open Rv64 Runs CachePool

/-! ## Contexts -/

/-- The contexts of threads are set one after the other. -/
theorem Hart.create_run {h h' : Hart} {v : Virtual} {stack : Word → Nat × Nat} {L : List Word}
    {ts : List Nat} {a : Word} {b : Nat → Word} (hl : Layout L stack)
    (hthreads : ∀ w ∈ h.threads, w ∈ L) (hts : ∀ t ∈ ts, word t ∈ L ∧ word t ∉ h.threads)
    (hnd : (ts.map word).Nodup) (hs : h.Stacked stack) (hi : Implements h v)
    (he : (ts.map fun t => HartEvent.create (word t) a (b t)).foldlM Hart.step h = some h') :
    (∃ es, Run Hart.Ok Hart.step h es h') ∧ h'.Stacked stack ∧ h'.running = h.running ∧
      (∀ w, w ∈ h'.threads ↔ w ∈ ts.map word ∨ w ∈ h.threads) ∧ ∃ v', Implements h' v' := by
  induction ts generalizing h v with
  | nil =>
    obtain rfl := Option.some.inj he
    exact ⟨⟨[], .nil⟩, hs, rfl, fun w => by simp, v, hi⟩
  | cons t ts ih =>
    rw [List.map_cons, List.foldlM_cons] at he
    obtain ⟨h₁, hs₁, he⟩ := Option.bind_eq_some_iff.1 he
    obtain ⟨hmem, hnew⟩ := hts t (.head _)
    rw [List.map_cons, List.nodup_cons] at hnd
    have hok : h.Ok (.create (word t) a (b t)) := by
      refine hs.create_ok (hl.mono fun w hw => ?_) hnew _ _
      cases hw with
      | head => exact hmem
      | tail _ hw => exact hthreads w hw
    obtain ⟨v₁, -, hi₁⟩ := hi.step hok hs₁
    have hstacked := hs.step hi.live (fun hfit => by simp at hfit) hs₁
    have h₁threads : h₁.threads = word t :: h.threads := by
      obtain rfl := Option.some.inj hs₁
      rfl
    have h₁running : h₁.running = h.running := by
      obtain rfl := Option.some.inj hs₁
      rfl
    obtain ⟨⟨es, hrun⟩, hstacked', hrunning, hall, hv'⟩ := ih (h := h₁) (fun w hw => by
        rw [h₁threads] at hw
        cases hw with
        | head => exact hmem
        | tail _ hw => exact hthreads w hw)
      (fun u hu => by
        refine ⟨(hts u (.tail _ hu)).1, fun hw => ?_⟩
        rw [h₁threads] at hw
        cases List.mem_cons.1 hw with
        | inl hw => exact hnd.1 (hw ▸ List.mem_map_of_mem hu)
        | inr hw => exact (hts u (.tail _ hu)).2 hw)
      hnd.2 hstacked hi₁ he
    refine ⟨⟨_, .cons hok hs₁ hrun⟩, hstacked', hrunning.trans h₁running, fun w => ?_, hv'⟩
    rw [hall w, h₁threads, List.map_cons, List.mem_cons, List.mem_cons]
    tauto

/-! ## The stacks of the first threads -/

theorem Boot.sys_stack (e : Boot) (t : Nat) : (e.sys.tcb t).stack =
    if t = e.idleThread then e.idleStack else if t = e.mainThread then none
    else if t = e.getcThread then e.getcStack else if t = e.putcThread then e.putcStack else none := by
  have hcreate : ∀ (A : Sys) (u : Nat) (f stack : Ptr) (id : Int),
      ((A.createThread u f none stack id true).tcb t).stack =
        if t = u then (if f.isSome then stack else none) else (A.tcb t).stack :=
    fun A u f stack id => by
      rw [Sys.createThread_tcb]
      split <;> rfl
  simp only [Boot.sys, hcreate]
  rfl

/-- The stacks, thread by thread. -/
theorem Boot.Ok.stacks {e : Boot} (h : e.Ok) : (e.sys.tcb e.idleThread).stack = e.idleStack ∧
    (e.sys.tcb e.mainThread).stack = none ∧ (e.sys.tcb e.getcThread).stack = e.getcStack ∧
    (e.sys.tcb e.putcThread).stack = e.putcStack := by
  have hnd := h.tcbs
  simp only [List.nodup_cons, List.mem_cons, List.not_mem_nil, not_or, not_false_eq_true,
    List.nodup_nil, and_true] at hnd
  obtain ⟨⟨hpg, hpm, hpi⟩, ⟨hgm, hgi⟩, hmi⟩ := hnd
  simp only [e.sys_stack, if_true, if_neg hmi, if_neg hgi, if_neg hgm, if_neg hpi, if_neg hpm,
    if_neg hpg, and_self]

namespace Computer

variable {x x' : Computer} {heap : HeapBounds} {core : Core} {control : Control} {stvec : Word}
  {system : System} {H : HeapClient} {wrapper : Nat} {mainStack : Nat × Nat} {t : Nat}

/-! ## Boot -/

/-- Once the kernel, its allocators and the heap are there, the hart begins. -/
theorem boot_sound (hp : ∀ hart, Placed heap ⟨hart, system, H, wrapper, mainStack⟩)
    (hboot : boot core control stvec system H wrapper mainStack = some x) :
    x.Sound heap ∧ x.system = system ∧ x.heap = H ∧ ∃ t es, system.kernel.running = some t ∧
      Run Hart.Ok Hart.step (.boot core control stvec (word t)) es x.hart := by
  obtain ⟨t, ht, hboot⟩ := Option.bind_eq_some_iff.1 hboot
  obtain ⟨hart, hhart, hboot⟩ := Option.bind_eq_some_iff.1 hboot
  obtain rfl := Option.some.inj hboot
  have hp := hp hart
  -- the running thread is live
  have hlive : t ∈ system.kernel.tcbs := by
    obtain ⟨A, hr, ⟨u, hu, hi⟩, -⟩ := hp.system.kernel
    have hut : some u = some t := hu.symm.trans (hr.running.symm.trans ht)
    obtain rfl := Option.some.inj hut
    have hmem := hi.live u (.head _)
    rwa [← hr.tcbs] at hmem
  let others := system.kernel.tcbs.reverse.filter fun u => some u ≠ system.kernel.running
  have hothers : ∀ u, u ∈ others ↔ u ∈ system.kernel.tcbs ∧ u ≠ t := fun u => by
    simp only [others, List.mem_filter, List.mem_reverse, ht, ne_eq, Option.some.injEq,
      decide_not, Bool.not_eq_true', decide_eq_false_iff_not]
  have hlt : ∀ u ∈ system.kernel.tcbs, u < 2 ^ 64 := fun u hu => hp.lt hu
  have hnd : others.Nodup := (List.nodup_reverse.2 (hp.system.owns.nodup .tcb)).filter _
  obtain ⟨⟨es, hrun⟩, hstacked, hrunning, hthreads, hv⟩ := Hart.create_run
    (L := system.kernel.tcbs.map word) (h := .boot core control stvec (word t))
    (hp.layout fun w hw => by
      obtain ⟨u, hu, rfl⟩ := List.mem_map.1 hw
      exact ⟨u, hu, rfl⟩)
    (fun w hw => List.mem_singleton.1 hw ▸ List.mem_map_of_mem hlive)
    (fun u hu => by
      obtain ⟨hu, hne⟩ := (hothers u).1 hu
      exact ⟨List.mem_map_of_mem hu, fun hw =>
        hne (word_inj (hlt u hu) (hlt t hlive) (List.mem_singleton.1 hw))⟩)
    (hnd.map_on fun u hu u' hu' he => word_inj (hlt u ((hothers u).1 hu).1)
      (hlt u' ((hothers u').1 hu').1) he)
    ⟨fun u _ f hf => absurd hf List.not_mem_nil, fun u _ => .nil⟩
    (Hart.boot_implements core control stvec (word t)) hhart
  refine ⟨⟨hp, ⟨t, hlive, ht, hrunning⟩, fun w => ?_, hstacked, hv⟩, rfl, rfl, t, es, ht, hrun⟩
  rw [hthreads w]
  constructor
  · rintro (hw | hw)
    · obtain ⟨u, hu, rfl⟩ := List.mem_map.1 hw
      exact ⟨u, ((hothers u).1 hu).1, rfl⟩
    · exact ⟨t, hlive, List.mem_singleton.1 hw⟩
  · rintro ⟨u, hu, rfl⟩
    by_cases hut : u = t
    · exact .inr (hut ▸ .head _)
    · exact .inl (List.mem_map_of_mem ((hothers u).2 ⟨hu, hut⟩))

/-! ## What `main` makes -/

/-- `main` until it sets `TCB::running`. It runs on a stack in front of the heap; other parts take
pages between `kmem_init` and the creation of the caches, and the idle thread has its stack from
`mem_alloc`. There has been memory for the stacks of the console's threads. -/
structure Startup where
  heap : HeapBounds
  kmem : Kmem
  shared : SharedClient
  functions : Functions
  idleStack : Nat
  system : System
  client : HeapClient
  core : Core
  control : Control
  stvec : Word
  wrapper : Nat
  mainStack : Nat × Nat
  init : kmem_init heap 12 heap.startAddr 4096 = some kmem
  ram : kmem.InRam
  pages : ∃ ops, Run SharedClient.Ok SharedClient.step (.boot kmem) ops shared
  main : System.main (.reset shared) functions (some idleStack) = some system
  room : HeapBounds.Room { heap with startAddr := kmem.buddy.kernelEndAddr }
  calls : ∃ cs, Run HeapClient.OkAny HeapClient.step
    ⟨.reset { heap with startAddr := kmem.buddy.kernelEndAddr }, []⟩ cs client
  idle : (idleStack, MemoryAllocator.memAllocUnits stackSize) ∈ client.live
  console : ∀ t ∈ system.kernel.tcbs, (system.kernel.tcb t).stack = none →
    system.kernel.running = some t
  front : mainStack.1 + mainStack.2 ≤ heap.startAddr

namespace Startup

variable (c : Startup)

/-- The heap behind the memory of the buddy allocator. -/
abbrev bounds : HeapBounds := { c.heap with startAddr := c.kmem.buddy.kernelEndAddr }

def computer : Option Computer :=
  boot c.core c.control c.stvec c.system c.client c.wrapper c.mainStack

theorem placed (hart : Hart) :
    Placed c.bounds ⟨hart, c.system, c.client, c.wrapper, c.mainStack⟩ := by
  obtain ⟨ops, hops⟩ := c.pages
  obtain ⟨cs, hcs⟩ := c.calls
  obtain ⟨e, he, hboot, ⟨ops', hops'⟩, hsound, hstacks⟩ :=
    System.main_sound (System.boot_owns c.init c.ram hops) c.main
  have hholding := (HeapClient.Holding.reset c.room).run hcs
  -- the memory of the buddy allocator
  have hstart : c.system.shared.client.kmem.buddy.kernelStartAddr = c.kmem.buddy.kernelStartAddr :=
    (SharedClient.run_region hops').start.trans (SharedClient.run_region hops).start
  obtain ⟨b, heap', hb, hregion⟩ := kmem_init_region c.init
  have hend : c.kmem.buddy.kernelEndAddr = c.kmem.buddy.kernelStartAddr + 2 ^ 12 * blockSize := by
    rw [hregion.finish, hregion.start]
    exact Buddy.buddyInit_region hb
  have hfront : c.heap.startAddr ≤ c.kmem.buddy.kernelStartAddr := by
    obtain ⟨-, -, -, -, hs, -⟩ := Buddy.buddyInit_fields hb
    rw [hregion.start, hs]
    exact (Nat.le_add_right _ _).trans (Buddy.le_pageAlign _)
  -- the stacks
  obtain ⟨-, hr⟩ := Boot.tidy he hboot
  obtain ⟨hidle, hmain, hgetc, hputc⟩ := he.stacks
  rw [← hr.stack] at hidle hmain hgetc hputc
  have htcbs : c.system.kernel.tcbs = [e.idleThread, e.mainThread, e.getcThread, e.putcThread] :=
    hr.tcbs.trans e.sys_tcbs
  have hrunning : c.system.kernel.running = some e.mainThread := hr.running
  have hnd := he.tcbs
  simp only [List.nodup_cons, List.mem_cons, List.not_mem_nil, not_or, not_false_eq_true,
    List.nodup_nil, and_true] at hnd
  have hsome : ∀ t ∈ c.system.kernel.tcbs, t ≠ e.mainThread → (c.system.kernel.tcb t).stack ≠ none :=
    fun t ht hne hn => hne (Option.some.inj ((c.console t ht hn).symm.trans hrunning))
  have hgetc' := hsome e.getcThread (by simp [htcbs]) hnd.2.1.1
  have hputc' := hsome e.putcThread (by simp [htcbs]) hnd.1.2.1
  obtain ⟨getc, hg⟩ := Option.ne_none_iff_exists'.1 (hgetc ▸ hgetc')
  obtain ⟨putc, hp⟩ := Option.ne_none_iff_exists'.1 (hputc ▸ hputc')
  rw [hstacks.idle] at hidle
  rw [hg] at hgetc
  rw [hp] at hputc
  have hgb := hstacks.getc getc hg
  have hpb := hstacks.putc putc hp
  have hbuffer : ∀ q, (q, stackSize) ∈ c.system.shared.client.buffers → c.idleStack ≠ q :=
    fun q hq he => by
      obtain ⟨-, hhi⟩ := hsound.buffer_inside hq
      obtain ⟨hlo, -⟩ := hholding.inside c.idle
      have hsize : 0 < stackSize := by decide
      dsimp only at hhi hlo
      rw [hstart] at hhi
      omega
  refine ⟨hsound, hholding, ?_, ?_, ?_, ?_, fun t ht p hs => ?_, ?_⟩
  · exact (hstart ▸ hend).ge
  · have hroom := c.room.room
    have hword := c.room.word
    have := c.front
    dsimp only at hroom hword ⊢
    omega
  · refine .inl (c.front.trans ?_)
    change c.heap.startAddr ≤ c.system.shared.client.kmem.buddy.kernelStartAddr
    rw [hstart]
    exact hfront
  · refine .inl (c.front.trans (hfront.trans ?_))
    dsimp only
    omega
  · change t ∈ c.system.kernel.tcbs at ht
    change (c.system.kernel.tcb t).stack = some p at hs
    rw [htcbs] at ht
    simp only [List.mem_cons, List.not_mem_nil, or_false] at ht
    rcases ht with rfl | rfl | rfl | rfl
    · obtain rfl := Option.some.inj (hidle.symm.trans hs)
      exact .inl c.idle
    · cases hmain.symm.trans hs
    · obtain rfl := Option.some.inj (hgetc.symm.trans hs)
      exact .inr hgb
    · obtain rfl := Option.some.inj (hputc.symm.trans hs)
      exact .inr hpb
  · have hinj : (c.system.kernel.tcbs.map fun t => (c.system.kernel.tcb t).stack).Nodup := by
      have hgp : getc ≠ putc := fun he => hstacks.apart putc hp (he ▸ hg)
      rw [htcbs]
      simp only [List.map_cons, List.map_nil, hidle, hmain, hgetc, hputc, List.nodup_cons,
        List.mem_cons, List.not_mem_nil, or_false, not_or, Option.some.injEq, reduceCtorEq,
        not_false_eq_true, List.nodup_nil, and_true, true_and]
      exact ⟨⟨hbuffer getc hgb, hbuffer putc hpb⟩, hgp⟩
    exact List.inj_on_of_nodup_map hinj

variable {c : Startup}

/-- The computer is sound when it starts. -/
theorem sound (hstart : c.computer = some x) : x.Sound c.bounds := (boot_sound c.placed hstart).1

theorem exists_computer (c : Startup) : ∃ x, c.computer = some x := by
  obtain ⟨A, hr, ⟨t, ht, -⟩, -⟩ := (c.placed (.boot c.core c.control c.stvec 0)).system.kernel
  have hcreate : ∀ (ts : List Nat) (a : Word) (b : Nat → Word) (h : Hart), ∃ h',
      (ts.map fun t => HartEvent.create (word t) a (b t)).foldlM Hart.step h = some h' := by
    intro ts a b h
    induction ts generalizing h with
    | nil => exact ⟨h, rfl⟩
    | cons t ts ih => exact ih _
  obtain ⟨hart, hhart⟩ := hcreate _ (word c.wrapper) _
    (.boot c.core c.control c.stvec (word t))
  refine ⟨⟨hart, c.system, c.client, c.wrapper, c.mainStack⟩, ?_⟩
  unfold computer boot
  have hrunning : c.system.kernel.running = some t := hr.running.trans ht
  simp only [hrunning, Option.bind_eq_bind, Option.bind_some]
  exact (congrArg (Option.bind · _) hhart)

/-- **The hart, the kernel and the heap.** In every run from boot on the kernel and its allocators do
a run of their own, the heap too, and so does the hart, with the events of the run and at most one for
each entry: what it asks of the memory in which it saves registers, the allocators keep. Its threads
are those of the kernel, and it runs the one that the scheduler has chosen. The contexts and the
stacks do not overlap, and each thread's frames are on its own stack. -/
theorem computer_runs {es : List ComputerEvent} (hstart : c.computer = some x)
    (hrun : Run Ok Computer.step x es x') :
    Run System.Ok System.step c.system (es.filterMap ComputerEvent.system) x'.system ∧
    (∃ cs, Run HeapClient.OkAny HeapClient.step ⟨.reset c.bounds, []⟩ cs x'.heap) ∧
    (∃ t hes₀ hes, c.system.kernel.running = some t ∧ List.Forall₂ ComputerEvent.Makes es hes ∧
      Run Hart.Ok Hart.step (.boot c.core c.control c.stvec (word t)) (hes₀ ++ hes.flatten) x'.hart) ∧
    (∃ t ∈ x'.kernel.tcbs, x'.kernel.running = some t ∧ x'.hart.running = word t) ∧
    (∀ w, w ∈ x'.hart.threads ↔ ∃ t ∈ x'.kernel.tcbs, w = word t) ∧
    Layout x'.hart.threads x'.stack ∧ x'.hart.Stacked x'.stack := by
  obtain ⟨hsound, hsystem, hheap, t, hes₀, ht, hhart⟩ := boot_sound c.placed hstart
  obtain ⟨h', hsystem', ⟨hes, hmakes, hhart'⟩, cs, hcs⟩ := hsound.run hrun
  rw [hsystem] at hsystem'
  rw [hheap] at hcs
  obtain ⟨cs₀, hcs₀⟩ := c.calls
  exact ⟨hsystem', ⟨_, hcs₀.trans hcs⟩, ⟨t, hes₀, hes, ht, hmakes, hhart.trans hhart'⟩, h'.running,
    h'.threads, h'.layout, h'.stacked⟩

/-- A thread is created with a stack from the heap; after two ticks the thread of the console runs. -/
theorem computer_runs_heap128 : ∃ (c : Startup) (x x' : Computer), c.computer = some x ∧
    Run Ok Computer.step x [.heap (.alloc 64),
      .entry (.createThread (some 0x80003000) none (some 2164334640) 0 true), .entry .timer,
      .entry .timer] x' ∧ x'.hart.running = word 2147586280 ∧ Layout x'.hart.threads x'.stack := by
  let front : HeapBounds := { Buddy.heap128 with startAddr := 2164330496 }
  let r : Request := .createThread (some 0x80003000) none (some 2164334640) 0 true
  have h : ((kmem_init Buddy.heap128 12 Buddy.heap128.startAddr 4096).bind fun k =>
      if k.buddy.kernelEndAddr = 2164330496 ∧ ramStart ≤ k.buddy.kernelStartAddr ∧
        k.buddy.kernelStartAddr + 2 ^ 12 * blockSize ≤ ramEnd then
      (HeapClient.step ⟨.reset front, []⟩ (.alloc 64)).bind fun H =>
      (System.main (.reset (.boot k)) System.functions128 (some 2164330520)).bind fun s =>
      if (2164330520, 64) ∈ H.live ∧ (∀ t ∈ s.kernel.tcbs, (s.kernel.tcb t).stack = none →
        s.kernel.running = some t) ∧ s.kernel.running ≠ s.kernel.idleThread ∧
        ∀ t ∈ s.kernel.tcbs, (s.kernel.tcb t).stack ≠ some 2164334640 then
      (H.step (.alloc 64)).bind fun H₁ => if (2164334640, 64) ∈ H₁.live then
      (s.enter r).bind fun s₁ => (s₁.enter .timer).bind fun s₂ => (s₂.enter .timer).bind fun s₃ =>
      if s₃.kernel.running = some 2147586280 then some () else none
      else none else none else none) = some () := by
    decide +kernel
  obtain ⟨k, hk, h⟩ := Option.bind_eq_some_iff.1 h
  obtain ⟨⟨hend, hram⟩, h⟩ := Option.ite_none_right_eq_some.1 h
  obtain ⟨H, hH, h⟩ := Option.bind_eq_some_iff.1 h
  obtain ⟨s, hs, h⟩ := Option.bind_eq_some_iff.1 h
  obtain ⟨⟨hidle, hconsole, hrunning, hunused⟩, h⟩ := Option.ite_none_right_eq_some.1 h
  obtain ⟨H₁, hH₁, h⟩ := Option.bind_eq_some_iff.1 h
  obtain ⟨hlive, h⟩ := Option.ite_none_right_eq_some.1 h
  obtain ⟨s₁, hs₁, h⟩ := Option.bind_eq_some_iff.1 h
  obtain ⟨s₂, hs₂, h⟩ := Option.bind_eq_some_iff.1 h
  obtain ⟨s₃, hs₃, h⟩ := Option.bind_eq_some_iff.1 h
  obtain ⟨hlast, -⟩ := Option.ite_none_right_eq_some.1 h
  have hfirst : HeapClient.OkAny ⟨.reset front, []⟩ (.alloc 64) := show 64 < 2 ^ 64 by decide
  let c : Startup := {
    heap := Buddy.heap128
    kmem := k
    shared := .boot k
    functions := System.functions128
    idleStack := 2164330520
    system := s
    client := H
    core := ⟨default, fun _ => 0⟩
    control := ⟨0x80000000, true, 0, ⟨false, false, true⟩⟩
    stvec := 0x80000100
    wrapper := 0x80000200
    mainStack := (0x80005000, 0x1000)
    init := hk
    ram := hram
    pages := ⟨[], .nil⟩
    main := hs
    room := by
      rw [hend]
      exact ⟨by decide, by decide, by decide⟩
    calls := by
      rw [hend]
      exact ⟨_, .cons hfirst hH .nil⟩
    idle := hidle
    console := hconsole
    front := by decide }
  obtain ⟨x, hx⟩ := exists_computer c
  obtain ⟨hsound, hsystem, hheap, -⟩ := boot_sound c.placed hx
  -- the stack, and the entries
  have hok : x.Ok (.heap (.alloc 64)) := ⟨show 64 < 2 ^ 64 by decide, nofun⟩
  have hstep : x.step (.heap (.alloc 64)) = some { x with heap := H₁ } := by
    unfold Computer.step
    rw [hheap]
    exact Option.map_eq_some_iff.2 ⟨H₁, hH₁, rfl⟩
  obtain ⟨hsound, -⟩ := hsound.step hok hstep
  have hcreate : Ok { x with heap := H₁ } (.entry r) := by
    refine ⟨⟨?_, nofun⟩, 2164334640, rfl, hlive, ?_⟩
    · rw [kernel, hsystem]
      exact hrunning
    · intro u hu _
      rw [kernel, hsystem] at hu ⊢
      exact hunused u hu
  obtain ⟨x₁, hx₁, hsound₁, hsystem₁⟩ := hsound.entered hcreate.1 hcreate.2
    (show x.system.enter r = some s₁ by rw [hsystem]; exact hs₁)
  obtain ⟨x₂, hx₂, hsound₂, hsystem₂⟩ := hsound₁.entered (r := .timer) trivial trivial
    (show x₁.system.enter .timer = some s₂ by rw [hsystem₁]; exact hs₂)
  obtain ⟨x₃, hx₃, hsound₃, hsystem₃⟩ := hsound₂.entered (r := .timer) trivial trivial
    (show x₂.system.enter .timer = some s₃ by rw [hsystem₂]; exact hs₃)
  have hrun : Run Ok Computer.step x [.heap (.alloc 64), .entry r, .entry .timer, .entry .timer] x₃ :=
    .cons hok hstep (.cons hcreate hx₁ (.cons ⟨trivial, trivial⟩ hx₂ (.cons ⟨trivial, trivial⟩ hx₃
      .nil)))
  obtain ⟨-, -, -, ⟨t, -, ht, hw⟩, -, hlayout, -⟩ := computer_runs hx hrun
  refine ⟨c, x, x₃, hx, hrun, ?_, hlayout⟩
  rw [kernel, hsystem₃, hlast, Option.some.injEq] at ht
  rw [hw, ht]

end Startup

end Computer

end SlabKernel
