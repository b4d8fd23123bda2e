import SlabKernel.System.Runs

/-!
# The system from boot on

`main` leaves the system sound (`main_sound`): its semaphores and threads are distinct objects in the
RAM, as `Boot.Ok` asks. Hence every run of the system from boot is a run of the kernel and one of the
allocators (`system_runs`).
-/

namespace SlabKernel

open Function (update update_self update_of_ne)
open CachePool Runs

/-- The threads of the console have buffers as their stacks, the idle thread has the one that it is
given. -/
structure Boot.Stacked (e : Boot) (idleStack : Ptr) (buffers : List (Nat × Nat)) : Prop where
  idle : e.idleStack = idleStack
  putc : ∀ q, e.putcStack = some q → (q, 4096) ∈ buffers
  getc : ∀ q, e.getcStack = some q → (q, 4096) ∈ buffers
  apart : ∀ q, e.putcStack = some q → e.getcStack ≠ some q

namespace System

variable {x x' : System} {s : SharedClient} {f : Functions} {p : Ptr} {t : Nat}

/-! ## The statements of `main` -/

/-- The objects of the kernel are those of its caches. -/
abbrev Agrees (x : System) : Prop := Owns x.shared x.cache x.kernel.objects

/-- The allocators reach those of `x'` by admitted calls, and no cache and no buffer is lost. -/
structure Reaches (x x' : System) : Prop where
  run : ∃ ops, Run SharedClient.Ok SharedClient.step x.shared ops x'.shared
  made : ∀ c, x.cache c ≠ none → x'.cache c ≠ none
  buffers : x.shared.client.buffers ⊆ x'.shared.client.buffers

theorem Reaches.trans {x₁ : System} (h : x.Reaches x₁) (h' : x₁.Reaches x') : x.Reaches x' := by
  obtain ⟨ops, hrun⟩ := h.run
  obtain ⟨ops', hrun'⟩ := h'.run
  exact ⟨⟨ops ++ ops', hrun.trans hrun'⟩, fun c hc => h'.made c (h.made c hc),
    List.Subset.trans h.buffers h'.buffers⟩

theorem Calls.reaches {L : ObjectKind → List Nat} (h : x.Calls x' L)
    (hb : x'.shared.client.buffers = x.shared.client.buffers) : x.Reaches x' :=
  ⟨h.run, fun _ hc => h.made hc, hb ▸ List.Subset.refl _⟩

theorem createCache_agrees {c : ObjectKind} {ctor dtor : Ptr} (h : x.Agrees)
    (hc : x.cache c = none) (hx : x.createCache c ctor dtor = some x') :
    x.Reaches x' ∧ x'.Agrees ∧ x'.kernel = x.kernel ∧ ∀ d, d ≠ c → x'.cache d = x.cache d := by
  have hcalls := createCache_calls h hc hx
  have hreach := hcalls.reaches (createCache_keeps hx).2
  obtain ⟨⟨d, k'⟩, -, hx⟩ := Option.bind_eq_some_iff.1 hx
  obtain ⟨x₁, hx₁, hx⟩ := Option.bind_eq_some_iff.1 hx
  obtain rfl := Option.some.inj hx
  obtain ⟨s, -, rfl⟩ := Option.map_eq_some_iff.1 hx₁
  exact ⟨hreach, hcalls.owns, rfl, fun d hd => update_of_ne hd _ _⟩

/-- The new buffer is recorded, and was none before. -/
theorem kmalloc_agrees (h : x.Agrees) (i : Nat) (hx : x.kmalloc (2 ^ i) = some (p, x')) :
    x.Reaches x' ∧ x'.Agrees ∧ x'.kernel = x.kernel ∧ ∀ q, p = some q →
      (q, 2 ^ i) ∈ x'.shared.client.buffers ∧ q ∉ x.shared.client.buffers.map Prod.fst := by
  obtain ⟨⟨r, k'⟩, hr, hx⟩ := Option.bind_eq_some_iff.1 hx
  obtain ⟨x₁, hx₁, hx⟩ := Option.bind_eq_some_iff.1 hx
  obtain ⟨rfl, rfl⟩ := Prod.mk.inj (Option.some.inj hx)
  obtain ⟨s, hs, rfl⟩ := Option.map_eq_some_iff.1 hx₁
  have hok : x.shared.Ok (.call (.kmalloc (2 ^ i))) := SlabClient.Legal.pow _ i
  have ho := h.other hok (fun _ _ _ => not_false) hs
  have hb : s.client.buffers = r.toList.map (·, 2 ^ i) ++ x.shared.client.buffers := by
    obtain ⟨client, hc, rfl⟩ := Option.map_eq_some_iff.1 hs
    unfold SlabClient.step at hc
    simp only [hr, Option.map_some, Option.some.injEq] at hc
    rw [← hc]
  refine ⟨⟨⟨_, .cons hok hs .nil⟩, fun _ hc => hc, ?_⟩, ho, rfl, fun q hq => ?_⟩
  · rw [hb]
    exact List.subset_append_right _ _
  · obtain ⟨V, hi⟩ := ho.view
    have hnd := hi.bufferNodup
    rw [hb, hq] at hnd ⊢
    exact ⟨.head _, (List.nodup_cons.1 hnd).1⟩

/-- An allocation returns only if its cache has been created. -/
theorem alloc_made {c : ObjectKind} {r : Ptr} (h : x.Agrees) (hx : x.alloc c = some (r, x')) :
    x'.cache c ≠ none := by
  obtain ⟨d, hd, -⟩ := Option.bind_eq_some_iff.1 hx
  rw [(alloc_calls h hx).1.keeps c d hd]
  exact Option.some_ne_none d

theorem createSem_agrees {v : Nat} (h : x.Agrees) (hx : x.createSem v = some (t, x')) :
    x.Reaches x' ∧ x'.Agrees ∧ KernelSem.createSem x.kernel (some t) v = some x'.kernel ∧
      x'.kernel.sems = t :: x.kernel.sems ∧ x'.kernel.tcbs = x.kernel.tcbs ∧
      x'.cache .sem ≠ none := by
  unfold createSem at hx
  simp only [Option.bind_eq_bind] at hx
  obtain ⟨⟨p, x₁⟩, hx₁, hx⟩ := Option.bind_eq_some_iff.1 hx
  obtain ⟨hcalls, -⟩ := alloc_calls h hx₁
  obtain ⟨t', rfl, hx⟩ := Option.bind_eq_some_iff.1 hx
  obtain ⟨k', hk, hx⟩ := Option.bind_eq_some_iff.1 hx
  obtain ⟨rfl, rfl⟩ := Prod.mk.inj (Option.some.inj hx)
  rw [hcalls.kernel] at hk
  have hobj := step_objects (e := .semOpen (some t') v) hk
  have hreach := hcalls.reaches (alloc_keeps hx₁).2
  have hmade := alloc_made h hx₁
  refine ⟨⟨hreach.run, hreach.made, hreach.buffers⟩, ?_, hk, hobj .sem, hobj .tcb, hmade⟩
  have hL : k'.objects = update x.kernel.objects .sem ((some t').toList ++ x.kernel.objects .sem) :=
    funext fun c => by
      rw [hobj c]
      cases c <;> rfl
  change Owns x₁.shared x₁.cache k'.objects
  rw [hL]
  exact hcalls.owns

theorem createThread_agrees {fn stack : Ptr} {id : Int} (h : x.Agrees)
    (hx : x.createThread fn stack id = some (t, x')) :
    x.Reaches x' ∧ x'.Agrees ∧
      TCB.createThread x.kernel (some t) fn none stack id true = some (some t, x'.kernel) ∧
      x'.kernel.sems = x.kernel.sems ∧ x'.kernel.tcbs = t :: x.kernel.tcbs ∧
      x'.cache .tcb ≠ none := by
  unfold createThread at hx
  simp only [Option.bind_eq_bind] at hx
  obtain ⟨⟨p, x₁⟩, hx₁, hx⟩ := Option.bind_eq_some_iff.1 hx
  obtain ⟨hcalls, -⟩ := alloc_calls h hx₁
  obtain ⟨t', rfl, hx⟩ := Option.bind_eq_some_iff.1 hx
  obtain ⟨⟨q, k'⟩, hk, hx⟩ := Option.bind_eq_some_iff.1 hx
  obtain ⟨rfl, rfl⟩ := Prod.mk.inj (Option.some.inj hx)
  rw [hcalls.kernel] at hk
  have hq : q = some t' := by
    unfold TCB.createThread at hk
    dsimp only at hk
    split at hk
    · obtain ⟨k₁, -, hk⟩ := Option.bind_eq_some_iff.1 hk
      exact (Prod.mk.inj (Option.some.inj hk)).1.symm
    · exact (Prod.mk.inj (Option.some.inj hk)).1.symm
  subst hq
  have hobj := step_objects (k := x.kernel) (e := .createThread (some t') fn none stack id true)
    (Option.map_eq_some_iff.2 ⟨_, hk, rfl⟩)
  have hreach := hcalls.reaches (alloc_keeps hx₁).2
  have hmade := alloc_made h hx₁
  refine ⟨⟨hreach.run, hreach.made, hreach.buffers⟩, ?_, hk, hobj .sem, hobj .tcb, hmade⟩
  have hL : k'.objects = update x.kernel.objects .tcb ((some t').toList ++ x.kernel.objects .tcb) :=
    funext fun c => by
      rw [hobj c]
      cases c <;> rfl
  change Owns x₁.shared x₁.cache k'.objects
  rw [hL]
  exact hcalls.owns

theorem main_sound (h : Owns s (fun _ => none) fun _ => [])
    (hx : main (.reset s) f p = some x) : ∃ e : Boot, e.Ok ∧ e.kernel = some x.kernel ∧
      (∃ ops, Run SharedClient.Ok SharedClient.step s ops x.shared) ∧ x.Sound ∧
      e.Stacked p x.shared.client.buffers := by
  have h₀ : (reset s).Agrees := by
    refine ⟨h.view, h.ram, h.handle, h.apart, fun c => ?_, fun c p => ?_⟩
    · cases c <;> exact List.nodup_nil
    · refine Iff.trans ?_ (h.live c p)
      cases c <;> exact Iff.rfl
  unfold main at hx
  simp only [Option.bind_eq_bind] at hx
  obtain ⟨x₁, hx₁, hx⟩ := Option.bind_eq_some_iff.1 hx
  obtain ⟨r₁, h₁, k₁, c₁⟩ := createCache_agrees h₀ rfl hx₁
  obtain ⟨x₂, hx₂, hx⟩ := Option.bind_eq_some_iff.1 hx
  obtain ⟨r₂, h₂, k₂, -⟩ := createCache_agrees h₁ (c₁ .sem nofun) hx₂
  obtain ⟨⟨p₃, x₃⟩, hx₃, hx⟩ := Option.bind_eq_some_iff.1 hx
  obtain ⟨r₃, h₃, k₃, -⟩ := kmalloc_agrees h₂ _ hx₃
  -- the semaphores of the console
  obtain ⟨⟨txFull, x₄⟩, hx₄, hx⟩ := Option.bind_eq_some_iff.1 hx
  obtain ⟨r₄, h₄, e₄, s₄, t₄, m₄⟩ := createSem_agrees h₃ hx₄
  obtain ⟨⟨txBuff, x₅⟩, hx₅, hx⟩ := Option.bind_eq_some_iff.1 hx
  obtain ⟨r₅, h₅, e₅, s₅, t₅, -⟩ := createSem_agrees h₄ hx₅
  obtain ⟨⟨rxBuff, x₆⟩, hx₆, hx⟩ := Option.bind_eq_some_iff.1 hx
  obtain ⟨r₆, h₆, e₆, s₆, t₆, -⟩ := createSem_agrees h₅ hx₆
  obtain ⟨⟨rxEmpty, x₇⟩, hx₇, hx⟩ := Option.bind_eq_some_iff.1 hx
  obtain ⟨r₇, h₇, e₇, s₇, t₇, -⟩ := createSem_agrees h₆ hx₇
  obtain ⟨⟨uartReceive, x₈⟩, hx₈, hx⟩ := Option.bind_eq_some_iff.1 hx
  obtain ⟨r₈, h₈, e₈, s₈, t₈, -⟩ := createSem_agrees h₇ hx₈
  obtain ⟨⟨uartTransmit, x₉⟩, hx₉, hx⟩ := Option.bind_eq_some_iff.1 hx
  obtain ⟨r₉, h₉, e₉, s₉, t₉, -⟩ := createSem_agrees h₈ hx₉
  obtain ⟨⟨p₁₀, x₁₀⟩, hx₁₀, hx⟩ := Option.bind_eq_some_iff.1 hx
  obtain ⟨r₁₀, h₁₀, k₁₀, -⟩ := kmalloc_agrees h₉ 12 hx₁₀
  obtain ⟨⟨p₁₁, x₁₁⟩, hx₁₁, hx⟩ := Option.bind_eq_some_iff.1 hx
  obtain ⟨r₁₁, h₁₁, k₁₁, -⟩ := kmalloc_agrees h₁₀ 12 hx₁₁
  -- the threads
  obtain ⟨⟨putcStack, x₁₂⟩, hx₁₂, hx⟩ := Option.bind_eq_some_iff.1 hx
  obtain ⟨r₁₂, h₁₂, k₁₂, b₁₂⟩ := kmalloc_agrees h₁₁ 12 hx₁₂
  obtain ⟨⟨putcThread, x₁₃⟩, hx₁₃, hx⟩ := Option.bind_eq_some_iff.1 hx
  obtain ⟨r₁₃, h₁₃, e₁₃, s₁₃, t₁₃, -⟩ := createThread_agrees h₁₂ hx₁₃
  obtain ⟨⟨getcStack, x₁₄⟩, hx₁₄, hx⟩ := Option.bind_eq_some_iff.1 hx
  obtain ⟨r₁₄, h₁₄, k₁₄, b₁₄⟩ := kmalloc_agrees h₁₃ 12 hx₁₄
  obtain ⟨⟨getcThread, x₁₅⟩, hx₁₅, hx⟩ := Option.bind_eq_some_iff.1 hx
  obtain ⟨r₁₅, h₁₅, e₁₅, s₁₅, t₁₅, -⟩ := createThread_agrees h₁₄ hx₁₅
  obtain ⟨⟨mainThread, x₁₆⟩, hx₁₆, hx⟩ := Option.bind_eq_some_iff.1 hx
  obtain ⟨r₁₆, h₁₆, e₁₆, s₁₆, t₁₆, -⟩ := createThread_agrees h₁₅ hx₁₆
  obtain ⟨⟨idleThread, x₁₇⟩, hx₁₇, hx⟩ := Option.bind_eq_some_iff.1 hx
  obtain ⟨r₁₇, h₁₇, e₁₇, s₁₇, t₁₇, m₁₇⟩ := createThread_agrees h₁₆ hx₁₇
  obtain rfl := Option.some.inj hx
  have hreset : x₃.kernel = .reset := k₃.trans (k₂.trans k₁)
  rw [hreset] at e₄ s₄ t₄
  rw [k₁₂, k₁₁, k₁₀] at e₁₃ s₁₃ t₁₃
  rw [k₁₄] at e₁₅ s₁₅ t₁₅
  have hsems : x₁₇.kernel.sems =
      [uartTransmit, uartReceive, rxEmpty, rxBuff, txBuff, txFull] := by
    rw [s₁₇, s₁₆, s₁₅, s₁₃, s₉, s₈, s₇, s₆, s₅, s₄]
    rfl
  have htcbs : x₁₇.kernel.tcbs = [idleThread, mainThread, getcThread, putcThread] := by
    rw [t₁₇, t₁₆, t₁₅, t₁₃, t₉, t₈, t₇, t₆, t₅, t₄]
    rfl
  let e : Boot := {
    txFull, txBuff, rxBuff, rxEmpty, uartReceive, uartTransmit, putcThread, getcThread, mainThread
    idleThread, consoleput := f.consoleput, consoleget := f.consoleget, idle := f.idle
    putcStack, getcStack, idleStack := p }
  have hsnd : x₁₇.kernel.sems.Nodup := h₁₇.nodup .sem
  have htnd : x₁₇.kernel.tcbs.Nodup := h₁₇.nodup .tcb
  have he : e.Ok := by
    rw [hsems] at hsnd
    rw [htcbs] at htnd
    refine ⟨List.nodup_reverse.1 hsnd, List.nodup_reverse.1 htnd, fun t ht =>
      h₁₇.inRam (c := .tcb) ?_⟩
    change t ∈ x₁₇.kernel.tcbs
    rw [htcbs]
    exact List.mem_reverse.1 ht
  have hboot : e.kernel = some { x₁₇.kernel with
      idleThread := some idleThread, running := some mainThread } := by
    unfold Boot.kernel
    simp only [e, e₄, e₅, e₆, e₇, e₈, e₉, e₁₃, e₁₅, e₁₆, e₁₇, Option.bind_eq_bind,
      Option.bind_some, pure]
  have hreach := r₅.trans (r₆.trans (r₇.trans (r₈.trans (r₉.trans (r₁₀.trans (r₁₁.trans (r₁₂.trans
    (r₁₃.trans (r₁₄.trans (r₁₅.trans (r₁₆.trans r₁₇)))))))))))
  have hrun := (r₁.trans (r₂.trans (r₃.trans (r₄.trans hreach)))).run
  obtain ⟨ht, hr⟩ := Boot.tidy he hboot
  have hputc : ∀ q, putcStack = some q → (q, 4096) ∈ x₁₃.shared.client.buffers := fun q hq =>
    r₁₃.buffers (b₁₂ q hq).1
  have hlast := r₁₅.trans (r₁₆.trans r₁₇)
  refine ⟨e, he, hboot, hrun, ⟨⟨_, hr, Boot.stable he, ht⟩, h₁₇, fun c hc => ?_⟩, rfl, fun q hq => ?_,
    fun q hq => hlast.buffers (b₁₄ q hq).1, fun q hq hq' => ?_⟩
  · cases c with
    | tcb => exact m₁₇
    | sem => exact hreach.made .sem m₄
    | blocked => cases hc
    | sleep => cases hc
  · exact hlast.buffers (r₁₄.buffers (hputc q hq))
  · exact (b₁₄ q hq').2 (List.mem_map_of_mem (hputc q hq))

/-! ## Runs from boot on -/

/-- The caches of the kernel before `main`. -/
theorem boot_owns {heap : HeapBounds} {space : Nat} {blockNum : Int} {k : Kmem}
    {ops : List SharedCall} (hinit : kmem_init heap 12 space blockNum = some k) (hram : k.InRam)
    (hrun : Run SharedClient.Ok SharedClient.step (.boot k) ops s) :
    Owns s (fun _ => none) fun _ => [] := by
  refine ⟨SharedClient.run_inv (SharedClient.boot_inv hinit) hrun, ?_, nofun, nofun,
    fun _ => List.nodup_nil, fun c p => iff_of_false List.not_mem_nil nofun⟩
  have hstart : s.client.kmem.buddy.kernelStartAddr = k.buddy.kernelStartAddr :=
    (SharedClient.run_region hrun).start
  unfold Kmem.InRam
  rw [hstart]
  exact hram

/-- **The kernel and its allocator.** From boot on, whatever other parts call in between, a run of the
system is a run of the kernel, whose entries take the objects that the allocator gives, and a run of
the allocators. What the kernel's environment promises of new objects holds, and the calls that the
kernel makes are admitted: each object is freed once, to its own cache, while it is live. The live
objects of the kernel's caches are those that it uses, and its live nodes are those that it links. -/
theorem system_runs {heap : HeapBounds} {space : Nat} {blockNum : Int} {k : Kmem}
    {ops : List SharedCall} {calls : List SystemCall}
    (hinit : kmem_init heap 12 space blockNum = some k) (hram : k.InRam)
    (hpre : Run SharedClient.Ok SharedClient.step (.boot k) ops s)
    (hmain : main (.reset s) f p = some x) (hrun : Run Ok System.step x calls x') :
    (∃ e : Boot, e.Ok ∧ e.kernel = some x.kernel) ∧
    (∃ es, List.Forall₂ SystemCall.Makes calls es ∧
      Run Kernel.Ok Kernel.step x.kernel es.reduceOption x'.kernel) ∧
    (∃ ops, Run SharedClient.Ok SharedClient.step (.boot k) ops x'.shared) ∧
    (∀ c, (x'.kernel.objects c).Nodup ∧ ∀ q, q ∈ x'.kernel.objects c ↔
      ∃ d, x'.cache c = some d ∧ (d, q) ∈ x'.shared.client.live) ∧
    ∃ N S, x'.kernel.Links N S := by
  obtain ⟨e, he, hboot, ⟨ops₁, hops₁⟩, h, -⟩ := main_sound (boot_owns hinit hram hpre) hmain
  obtain ⟨es, hmakes, hkernel, ⟨ops₂, hops₂⟩, h'⟩ := h.run hrun
  obtain ⟨A, hr, hst, ht⟩ := h'.kernel
  exact ⟨⟨e, he, hboot⟩, ⟨es, hmakes, hkernel⟩, ⟨_, hpre.trans (hops₁.trans hops₂)⟩,
    fun c => ⟨h'.owns.nodup c, h'.owns.live c⟩, ht.links hr hst⟩

def functions128 : Functions where
  tcbCtor := 0x80002000
  tcbDtor := 0x80002100
  semCtor := 0x80002200
  semDtor := 0x80002300
  consoleput := 0x80001000
  consoleget := 0x80001100
  idle := 0x80001200

/-- The main thread sleeps, and a thread of the console waits while another part takes a page. -/
theorem system_runs_heap128 : ∃ k x x',
    kmem_init Buddy.heap128 12 Buddy.heap128.startAddr 4096 = some k ∧
    main (.reset (.boot k)) functions128 (some 0x87006000) = some x ∧
    Run Ok System.step x [.entry (.sleep 1), .entry (.wait 2147566212), .other (.take 0),
      .entry .timer] x' ∧ x'.kernel.nodes.length = 1 ∧ x'.kernel.sleeps = [] ∧
    (∀ q, q ∈ x'.kernel.objects .blocked ↔
      ∃ d, x'.cache .blocked = some d ∧ (d, q) ∈ x'.shared.client.live) := by
  have h : ((kmem_init Buddy.heap128 12 Buddy.heap128.startAddr 4096).bind fun k =>
      if ramStart ≤ k.buddy.kernelStartAddr ∧
        k.buddy.kernelStartAddr + 2 ^ 12 * blockSize ≤ ramEnd then
      (main (.reset (.boot k)) functions128 (some 0x87006000)).bind fun x =>
      if x.kernel.running ≠ x.kernel.idleThread then
      (x.step (.entry (.sleep 1))).bind fun x =>
      if x.kernel.running ≠ x.kernel.idleThread ∧ 2147566212 ∈ x.kernel.sems then
      (x.step (.entry (.wait 2147566212))).bind fun x => (x.step (.other (.take 0))).bind fun x =>
      (x.step (.entry .timer)).bind fun x =>
      if x.kernel.nodes.length = 1 ∧ x.kernel.sleeps = [] then some () else none
      else none else none else none) = some () := by
    decide +kernel
  obtain ⟨k, hk, h⟩ := Option.bind_eq_some_iff.1 h
  obtain ⟨hram, h⟩ := Option.ite_none_right_eq_some.1 h
  obtain ⟨x, hx, h⟩ := Option.bind_eq_some_iff.1 h
  obtain ⟨h₀, h⟩ := Option.ite_none_right_eq_some.1 h
  obtain ⟨x₁, hx₁, h⟩ := Option.bind_eq_some_iff.1 h
  obtain ⟨h₁, h⟩ := Option.ite_none_right_eq_some.1 h
  obtain ⟨x₂, hx₂, h⟩ := Option.bind_eq_some_iff.1 h
  obtain ⟨x₃, hx₃, h⟩ := Option.bind_eq_some_iff.1 h
  obtain ⟨x₄, hx₄, h⟩ := Option.bind_eq_some_iff.1 h
  obtain ⟨⟨hnodes, hsleeps⟩, -⟩ := Option.ite_none_right_eq_some.1 h
  have hrun : Run Ok System.step x [.entry (.sleep 1), .entry (.wait 2147566212),
      .other (.take 0), .entry .timer] x₄ :=
    .cons ⟨h₀, by decide, by decide⟩ hx₁ (.cons h₁ hx₂ (.cons ⟨trivial, fun _ _ _ => not_false⟩ hx₃
      (.cons trivial hx₄ .nil)))
  obtain ⟨-, -, -, hlive, -⟩ := system_runs hk hram .nil hx hrun
  exact ⟨k, x, x₄, hk, hx, hrun, hnodes, hsleeps, (hlive .blocked).2⟩

/-- **When an entry returns.** In every state of the system after boot, an entry that its caller may
make returns, without a write through a null pointer, unless it needs a semaphore or a node that the
allocator cannot give; the creation of a thread always returns. -/
theorem system_returns {heap : HeapBounds} {space : Nat} {blockNum : Int} {k : Kmem}
    {ops : List SharedCall} {calls : List SystemCall} {r : Request}
    (hinit : kmem_init heap 12 space blockNum = some k) (hram : k.InRam)
    (hpre : Run SharedClient.Ok SharedClient.step (.boot k) ops s)
    (hmain : main (.reset s) f p = some x) (hrun : Run Ok System.step x calls x')
    (hok : x'.kernel.Admits r) :
    x'.step (.entry r) ≠ none ↔ ∀ c, x'.kernel.needs r = some c → c ≠ .tcb →
      x'.shared.client.kmem.Obtainable (x'.cache c) := by
  obtain ⟨e, -, -, -, h, -⟩ := main_sound (boot_owns hinit hram hpre) hmain
  obtain ⟨es, -, -, -, h'⟩ := h.run hrun
  exact h'.returns hok

/-- With every block taken a thread cannot sleep, but the timer goes on. -/
theorem system_returns_heap128 : ∃ k x x',
    kmem_init Buddy.heap128 12 Buddy.heap128.startAddr 4096 = some k ∧
    main (.reset (.boot k)) functions128 (some 0x87006000) = some x ∧
    Run Ok System.step x ([11, 10, 9, 8, 7, 6, 5, 4, 3, 2, 1, 0].map (.other ∘ .take)) x' ∧
    x'.kernel.Admits (.sleep 5) ∧ x'.step (.entry (.sleep 5)) = none ∧
    x'.step (.entry .timer) ≠ none := by
  have h : ((kmem_init Buddy.heap128 12 Buddy.heap128.startAddr 4096).bind fun k =>
      if ramStart ≤ k.buddy.kernelStartAddr ∧
        k.buddy.kernelStartAddr + 2 ^ 12 * blockSize ≤ ramEnd then
      (main (.reset (.boot k)) functions128 (some 0x87006000)).bind fun x =>
      (([11, 10, 9, 8, 7, 6, 5, 4, 3, 2, 1, 0].map (.other ∘ .take)).foldlM System.step x).bind
        fun x => if x.kernel.running ≠ x.kernel.idleThread ∧ x.cache .sleep = none ∧
          (x.shared.client.kmem.buddyCreated.alloc 0).1 = none then some () else none
      else none) = some () := by
    decide +kernel
  obtain ⟨k, hk, h⟩ := Option.bind_eq_some_iff.1 h
  obtain ⟨hram, h⟩ := Option.ite_none_right_eq_some.1 h
  obtain ⟨x, hx, h⟩ := Option.bind_eq_some_iff.1 h
  obtain ⟨x', hx', h⟩ := Option.bind_eq_some_iff.1 h
  obtain ⟨⟨hidle, hcache, hblocks⟩, -⟩ := Option.ite_none_right_eq_some.1 h
  have hrun : Run Ok System.step x _ x' := .of_foldlM (fun call hcall x => by
    obtain ⟨order, -, rfl⟩ := List.mem_map.1 hcall
    exact ⟨trivial, fun _ _ _ => not_false⟩) hx'
  have hok : x'.kernel.Admits (.sleep 5) := ⟨hidle, by decide, by decide⟩
  refine ⟨k, x, x', hk, hx, hrun, hok, not_not.1 fun hne => ?_, ?_⟩
  · have hob := (system_returns hk hram .nil hx hrun hok).1 hne .sleep rfl nofun
    rw [hcache] at hob
    exact hob.2 hblocks
  · exact (system_returns (r := .timer) hk hram .nil hx hrun trivial).2 nofun

end System

end SlabKernel
