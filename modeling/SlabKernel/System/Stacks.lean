import SlabKernel.Asm.Traps
import SlabKernel.Slab.Cells

/-!
# The stacks of the threads

`Layout threads stack`: the contexts and the stacks of the threads do not overlap. `Hart.Stacked`:
the frames of a thread lie on its own stack, the innermost one lowest. Then a trap needs no more than
room below the running thread's own stack pointer (`Hart.Fits`), and no other thread's frame or
context is in its way (`Hart.Stacked.room`).
-/

namespace SlabKernel

open Function (update update_self update_of_ne)
open Rv64

variable {h h' : Hart} {e : HartEvent} {stack stack' : Word → Nat × Nat} {threads : List Word}
  {t u a b x : Word} {n m : Nat} {kind : Kind}

/-! ## Ranges -/

theorem mem_range_iff (ha : a.toNat + n ≤ 2 ^ 64) :
    x ∈ range a n ↔ a.toNat ≤ x.toNat ∧ x.toNat < a.toNat + n := by
  have hx := x.isLt
  rw [mem_range, BitVec.toNat_sub]
  omega

/-! ## The layout -/

/-- The contexts and the stacks, each an address and a size, do not overlap. -/
structure Layout (threads : List Word) (stack : Word → Nat × Nat) : Prop where
  contextEnd : ∀ t ∈ threads, t.toNat + 40 ≤ 2 ^ 64
  stackEnd : ∀ t ∈ threads, (stack t).1 + (stack t).2 ≤ 2 ^ 64
  contexts : ∀ t ∈ threads, ∀ u ∈ threads, t ≠ u → Apart (t.toNat + 24, 16) (u.toNat + 24, 16)
  between : ∀ t ∈ threads, ∀ u ∈ threads, t ≠ u → Apart (stack t) (stack u)
  both : ∀ t ∈ threads, ∀ u ∈ threads, Apart (t.toNat + 24, 16) (stack u)

theorem Layout.mono (h : Layout threads stack) {threads' : List Word}
    (hsub : ∀ t ∈ threads', t ∈ threads) : Layout threads' stack :=
  ⟨fun t ht => h.contextEnd t (hsub t ht), fun t ht => h.stackEnd t (hsub t ht),
    fun t ht u hu => h.contexts t (hsub t ht) u (hsub u hu),
    fun t ht u hu => h.between t (hsub t ht) u (hsub u hu),
    fun t ht u hu => h.both t (hsub t ht) u (hsub u hu)⟩

theorem context_toNat (ht : t.toNat + 40 ≤ 2 ^ 64) : (TCB.context t).toNat = t.toNat + 24 := by
  unfold TCB.context
  rw [BitVec.toNat_add, show (24 : Word).toNat = 24 from rfl, Nat.mod_eq_of_lt (by omega)]

namespace Hart

/-- A frame fits below the stack pointer, on the stack and below the frames that are on it. -/
structure Fits (h : Hart) (stack : Nat × Nat) : Prop where
  low : stack.1 + 256 ≤ (h.core.regs sp).toNat
  high : (h.core.regs sp).toNat ≤ stack.1 + stack.2
  below : ∀ f, h.top = some f → (h.core.regs sp).toNat ≤ f.base.toNat

/-- The frames of each thread lie on its stack. -/
structure Stacked (h : Hart) (stack : Word → Nat × Nat) : Prop where
  inside : ∀ t ∈ h.threads, ∀ f ∈ h.frames t, Within (f.base.toNat, 256) (stack t)
  sorted : ∀ t ∈ h.threads, (h.frames t).Pairwise fun f g => f.base.toNat + 256 ≤ g.base.toNat

/-- The address of the new frame. -/
theorem Fits.base (hf : h.Fits (stack t)) :
    (h.core.regs sp - 256).toNat = (h.core.regs sp).toNat - 256 := by
  have := hf.low
  have := (h.core.regs sp).isLt
  rw [BitVec.toNat_sub, show (256 : Word).toNat = 256 from rfl]
  omega

namespace Stacked

theorem congr (hs : h.Stacked stack) (he : ∀ t ∈ h.threads, stack' t = stack t) :
    h.Stacked stack' :=
  ⟨fun t ht f hf => he t ht ▸ hs.inside t ht f hf, hs.sorted⟩

/-- A frame that fits is below all frames of the running thread. -/
theorem below (hs : h.Stacked stack) (hr : h.running ∈ h.threads) (hf : h.Fits (stack h.running)) :
    ∀ f ∈ h.frames h.running, (h.core.regs sp - 256).toNat + 256 ≤ f.base.toNat := by
  have hbase := hf.base
  have hlow := hf.low
  have hsorted := hs.sorted _ hr
  have htop := hf.below
  unfold top at htop
  cases hfr : h.frames h.running with
  | nil => exact fun f hf => absurd hf List.not_mem_nil
  | cons g fs =>
    rw [hfr] at hsorted htop
    have hg := htop g rfl
    intro f hf
    cases hf with
    | head => omega
    | tail _ hf =>
      have := (List.pairwise_cons.1 hsorted).1 f hf
      omega

/-- **The room for a frame is free** if it is on the running thread's own stack. -/
theorem room (hs : h.Stacked stack) (hl : Layout h.threads stack) (hr : h.running ∈ h.threads)
    (hf : h.Fits (stack h.running)) : h.Room := by
  have hbase := hf.base
  have hlow := hf.low
  have hhigh := hf.high
  have hbound := hl.stackEnd _ hr
  unfold Room
  rw [Set.disjoint_left]
  rintro x hx ⟨t, ht, hx' | ⟨f, hft, hx'⟩⟩
  · -- a context
    have hc := hl.contextEnd t ht
    have hctx := context_toNat hc
    have hap := hl.both t ht _ hr
    rw [mem_range_iff (by omega)] at hx hx'
    unfold SlabKernel.Apart at hap
    simp only at hap
    omega
  · have hin := hs.inside t ht f hft
    have hst := hl.stackEnd t ht
    unfold Within at hin
    simp only at hin
    rw [mem_range_iff (by omega)] at hx hx'
    by_cases htr : t = h.running
    · subst htr
      have := hs.below hr hf f hft
      omega
    · have hap := hl.between t ht _ hr htr
      unfold SlabKernel.Apart at hap
      omega

/-- A new thread's context is in nobody's way. -/
theorem create_ok (hs : h.Stacked stack) (hl : Layout (t :: h.threads) stack) (ht : t ∉ h.threads)
    (ra' sp' : Word) : h.Ok (.create t ra' sp') := by
  refine ⟨ht, ?_⟩
  have hc := hl.contextEnd t (.head _)
  have hctx := context_toNat hc
  rw [Set.disjoint_left]
  rintro x hx ⟨u, hu, hx' | ⟨f, hfu, hx'⟩⟩
  · have hcu := hl.contextEnd u (.tail _ hu)
    have hctxu := context_toNat hcu
    have hap := hl.contexts t (.head _) u (.tail _ hu) fun he => ht (he ▸ hu)
    rw [mem_range_iff (by omega)] at hx hx'
    unfold SlabKernel.Apart at hap
    simp only at hap
    omega
  · have hin := hs.inside u hu f hfu
    have hst := hl.stackEnd u (.tail _ hu)
    have hap := hl.both t (.head _) u (.tail _ hu)
    unfold Within at hin
    simp only at hin
    rw [mem_range_iff (by omega)] at hx hx'
    unfold SlabKernel.Apart at hap
    simp only at hap
    omega

/-! ## Events -/

/-- The running thread's frames change. -/
theorem setFrames (hs : h.Stacked stack) {fs : List RegFrame}
    (hin : ∀ f ∈ fs, Within (f.base.toNat, 256) (stack h.running))
    (hsorted : fs.Pairwise fun f g => f.base.toNat + 256 ≤ g.base.toNat) :
    (h.setFrames fs).Stacked stack := by
  refine ⟨fun t ht f hf => ?_, fun t ht => ?_⟩
  · simp only [Hart.setFrames] at hf
    by_cases htr : t = h.running
    · subst htr
      rw [update_self] at hf
      exact hin f hf
    · rw [update_of_ne htr] at hf
      exact hs.inside t ht f hf
  · simp only [Hart.setFrames]
    by_cases htr : t = h.running
    · subst htr
      rw [update_self]
      exact hsorted
    · rw [update_of_ne htr]
      exact hs.sorted t ht

/-- The innermost frame is given up. -/
theorem leave (hs : h.Stacked stack) (hr : h.running ∈ h.threads) {f : RegFrame}
    {fs : List RegFrame} (hfr : h.frames h.running = f :: fs) : (h.setFrames fs).Stacked stack := by
  have hin := hs.inside _ hr
  have hsorted := hs.sorted _ hr
  rw [hfr] at hin hsorted
  exact hs.setFrames (fun g hg => hin g (.tail _ hg)) (List.pairwise_cons.1 hsorted).2

/-- A frame is laid down at the stack pointer, which has been moved. -/
theorem enter (hs : h.Stacked stack) (hr : h.running ∈ h.threads) (hf : h.Fits (stack h.running))
    {core : Core} (hsp : core.regs sp = h.core.regs sp - 256) (control : Control) (kind : Kind) :
    ({ h with core, control }.enter kind).Stacked stack := by
  have hbase := hf.base
  have hlow := hf.low
  have hhigh := hf.high
  have hbelow := hs.below hr hf
  have hs' : Hart.Stacked { h with core, control } stack := ⟨hs.inside, hs.sorted⟩
  refine hs'.setFrames (fun f hfm => ?_) (List.pairwise_cons.2 ⟨fun f hfm => ?_, hs.sorted _ hr⟩)
  · cases hfm with
    | head =>
      unfold Within
      simp only [hsp]
      omega
    | tail _ hfm => exact hs.inside _ hr f hfm
  · simp only [hsp]
    exact hbelow f hfm

/-- **Every event keeps the frames on the stacks**, if the frames that it lays down fit. -/
theorem step (hs : h.Stacked stack) (hr : h.running ∈ h.threads)
    (hfit : (∃ scause, e = .trap scause) ∨ e = .push → h.Fits (stack h.running))
    (he : h.step e = some h') : h'.Stacked stack := by
  cases e with
  | code | wRet | loadStack | contextSwitch | spp =>
    obtain rfl := Option.some.inj he
    exact ⟨hs.inside, hs.sorted⟩
  | trap scause =>
    obtain rfl := Option.some.inj he
    obtain ⟨m, hm, -⟩ := execs_enter h.core Riscv.allRegs
    refine hs.enter hr (hfit (.inl ⟨scause, rfl⟩)) ?_ _ _
    rw [show execs h.core Riscv.supervisorTrap = _ from hm]
    exact Regs.set_self (i := sp) (by decide)
  | push =>
    obtain rfl := Option.some.inj he
    obtain ⟨m, hm, -⟩ := execs_enter h.core Riscv.upperRegs
    have hsp : (execs h.core Riscv.pushRegisters).regs sp = h.core.regs sp - 256 := by
      rw [show execs h.core Riscv.pushRegisters = _ from hm]
      exact Regs.set_self (i := sp) (by decide)
    have h' := hs.enter hr (hfit (.inr rfl)) hsp h.control .yield
    exact ⟨h'.inside, h'.sorted⟩
  | trapEnd | pop =>
    unfold Hart.step at he
    dsimp only at he
    split at he
    · rename_i hfr
      obtain rfl := Option.some.inj he
      have h' := hs.leave hr hfr
      exact ⟨h'.inside, h'.sorted⟩
    · cases he
  | create t ra' sp' =>
    obtain rfl := Option.some.inj he
    refine ⟨fun u hu f hf => ?_, fun u hu => ?_⟩
    · by_cases hut : u = t
      · subst hut
        simp only [update_self] at hf
        cases hf
      · simp only [update_of_ne hut] at hf
        exact hs.inside u ((List.mem_cons.1 hu).resolve_left hut) f hf
    · by_cases hut : u = t
      · subst hut
        simp only [update_self]
        exact .nil
      · simp only [update_of_ne hut]
        exact hs.sorted u ((List.mem_cons.1 hu).resolve_left hut)
  | destroy t =>
    obtain rfl := Option.some.inj he
    refine ⟨fun u hu f hf => ?_, fun u hu => ?_⟩
    · by_cases hut : u = t
      · subst hut
        simp only [update_self] at hf
        cases hf
      · simp only [update_of_ne hut] at hf
        exact hs.inside u (List.mem_of_mem_erase hu) f hf
    · by_cases hut : u = t
      · subst hut
        simp only [update_self]
        exact .nil
      · simp only [update_of_ne hut]
        exact hs.sorted u (List.mem_of_mem_erase hu)

end Stacked

end Hart

end SlabKernel
