import Mathlib.Data.List.Forall2
import SlabKernel.Asm.Model

/-!
# A processor for each thread

`Virtual` says what saving registers is for: each thread has registers of its own, and a trap or a
call of `pushRegisters` remembers them all. `Virtual.step` is one event there. `Implements` relates
the two machines: the frames in memory hold the remembered registers, the contexts the `ra` and
`sp` of the threads that do not run, and no two of these pieces of memory overlap (`Apart`). Every
event keeps it (`Implements.step`).
-/

namespace SlabKernel

open Function (update update_self update_of_ne update_eq_self)
open Rv64

/-! ## The abstract machine -/

/-- The registers that a trap or a call of `pushRegisters` remembers. -/
structure Saved where
  regs : Regs
  kind : Kind

structure Virtual where
  control : Control
  stvec : Word
  running : Word
  regs : Word → Regs
  pending : Word → List Saved

namespace Virtual

def setRegs (v : Virtual) (regs : Regs) : Virtual :=
  { v with regs := update v.regs v.running regs }

def setPending (v : Virtual) (pending : List Saved) : Virtual :=
  { v with pending := update v.pending v.running pending }

theorem setRegs_self (v : Virtual) (r : Regs) : (v.setRegs r).regs v.running = r :=
  update_self ..

theorem setRegs_of_ne {v : Virtual} {t : Word} (h : t ≠ v.running) (r : Regs) :
    (v.setRegs r).regs t = v.regs t :=
  update_of_ne h ..

theorem setPending_self (v : Virtual) (l : List Saved) :
    (v.setPending l).pending v.running = l :=
  update_self ..

theorem setPending_of_ne {v : Virtual} {t : Word} (h : t ≠ v.running) (l : List Saved) :
    (v.setPending l).pending t = v.pending t :=
  update_of_ne h ..

def ret (v : Virtual) : Virtual :=
  { v with control := { v.control with pc := v.regs v.running ra } }

/-- The registers are remembered, and the stack pointer goes below a frame. -/
def enter (v : Virtual) (kind : Kind) : Virtual :=
  let regs := v.regs v.running
  (v.setPending (⟨regs, kind⟩ :: v.pending v.running)).setRegs (regs.set sp (regs sp - 256))

/-- The registers of `thread` after a switch: all but `ra` and `sp` are those left by the others. -/
def switched (v : Virtual) (thread : Word) : Regs :=
  let regs := ((v.regs v.running).set a0 (TCB.context v.running)).set a1 (TCB.context thread)
  (regs.set ra (v.regs thread ra)).set sp (v.regs thread sp)

def step (v : Virtual) : HartEvent → Option Virtual
  | .code regs _ pc sie => some { v.setRegs regs with
      control := { v.control with pc, sstatus := { v.control.sstatus with sie } } }
  | .trap scause =>
    let control := v.control.trap v.stvec
    some ({ v with control }.enter (.trap (control.locals scause)))
  | .wRet =>
    match v.pending v.running with
    | s :: pending =>
      some (v.setPending ({ s with regs := s.regs.set a0 (v.regs v.running a0) } :: pending))
    | [] => none
  | .loadStack =>
    match v.pending v.running with
    | s :: _ => some (v.setRegs ((v.regs v.running).set a4 (s.regs a4)))
    | [] => none
  | .trapEnd =>
    match v.pending v.running with
    | ⟨regs, .trap locals⟩ :: pending => some { (v.setRegs regs).setPending pending with
        control := (v.control.restore locals).sret }
    | _ => none
  | .push => some (v.enter .yield).ret
  | .pop =>
    match v.pending v.running with
    | ⟨regs, .yield⟩ :: pending =>
      some ((v.setRegs (regs.set ra (v.regs v.running ra))).setPending pending).ret
    | _ => none
  | .contextSwitch thread => some ({ v with running := thread }.setRegs (v.switched thread)).ret
  | .create thread ra' sp' => some { v with
      regs := update v.regs thread (((v.regs thread).set ra ra').set sp sp')
      pending := update v.pending thread [] }
  | .destroy thread => some { v with pending := update v.pending thread [] }
  | .spp fn arg user => some { v.setRegs ((v.regs v.running).set a0 arg) with
      control := v.control.spp fn user }

end Virtual

/-! ## The routines -/

variable {c : Core} {m m' : Mem} {h h' : Hart} {v v' : Virtual} {f g : RegFrame} {s : Saved}
  {t u x a : Word} {is : List Reg} {kind : Kind} {e : HartEvent}

/-- A frame is laid down below the stack pointer. -/
theorem execs_enter (c : Core) (is : List Reg) : ∃ m,
    execs c (.addi sp sp (-256) :: saves is) = ⟨c.regs.set sp (c.regs sp - 256), m⟩ ∧
    Kept m (c.regs sp - 256) is (update c.regs sp (c.regs sp - 256)) ∧
    ∀ x ∉ range (c.regs sp - 256) 256, m x = c.mem x := by
  have hbase : c.regs sp + BitVec.ofInt 64 (-256) = c.regs sp - 256 := by
    rw [BitVec.sub_eq_add_neg]
    rfl
  have hregs : (c.regs.set sp (c.regs sp - 256)) sp = c.regs sp - 256 :=
    Regs.set_self (by decide)
  obtain ⟨m, he, hk, -, hx⟩ :=
    execs_saves { c with regs := c.regs.set sp (c.regs sp - 256) } is
  rw [hregs] at hk hx
  refine ⟨m, ?_, fun i hi => ?_, hx⟩
  · rw [← he, execs, List.foldl_cons, exec, hbase]
    rfl
  · rw [hk i hi]
    by_cases hi : i = sp
    · rw [hi, hregs, update_self]
    · rw [Regs.set_of_ne hi, update_of_ne hi]

/-- A frame at the stack pointer is read back and given up. -/
theorem execs_leave {r : Regs} (hsp : c.regs sp = r sp - 256)
    (hk : Kept c.mem (c.regs sp) is (update r sp (c.regs sp))) :
    ∃ r', execs c (restores is ++ [.addi sp sp 256]) = { c with regs := r' } ∧
      (∀ i ∈ is, i ≠ 0 → r' i = r i) ∧ r' sp = r sp ∧ ∀ i ∉ is, i ≠ sp → r' i = c.regs i := by
  obtain ⟨r', he, hr, hr'⟩ := execs_restores hk fun _ => update_self ..
  have hbase : r' sp = c.regs sp := by
    by_cases hi : sp ∈ is
    · rw [hr sp hi (by decide), update_self]
    · exact hr' sp hi
  have hup : c.regs sp + BitVec.ofInt 64 256 = r sp := by
    rw [hsp]
    exact BitVec.sub_add_cancel _ _
  refine ⟨r'.set sp (r sp), ?_, fun i hi h0 => ?_, Regs.set_self (by decide), fun i hi hs => ?_⟩
  · rw [execs_append, he, execs, List.foldl_cons, List.foldl_nil, exec, hbase, hup]
  · by_cases hs : i = sp
    · rw [hs, Regs.set_self (by decide)]
    · rw [Regs.set_of_ne hs, hr i hi h0, update_of_ne hs]
  · rw [Regs.set_of_ne hs, hr' i hi]

theorem mem_upperRegs {i : Reg} (h0 : i ≠ 0) (hra : i ≠ ra) (hsp : i ≠ sp) :
    i ∈ Riscv.upperRegs := by
  revert i
  decide

/-- A thread's context, its two words. -/
def contextWords (m : Mem) (t : Word) : Word × Word :=
  (m.ld (TCB.context t), m.ld (TCB.context t + 8))

theorem context_words (t : Word) : range (TCB.context t) 8 ⊆ range (TCB.context t) 16 ∧
    range (TCB.context t + 8) 8 ⊆ range (TCB.context t) 16 ∧
    Disjoint (range (TCB.context t) 8) (range (TCB.context t + 8) 8) := by
  refine ⟨fun x hx => ?_, fun x hx => ?_, Set.disjoint_left.2 fun x hx hx' => ?_⟩
  · rw [mem_range] at hx ⊢
    omega
  · rw [mem_range] at hx ⊢
    bv_omega
  · rw [mem_range] at hx hx'
    bv_omega

theorem contextWords_congr (hm : ∀ x ∈ range (TCB.context t) 16, m' x = m x) :
    contextWords m' t = contextWords m t := by
  obtain ⟨h₁, h₂, -⟩ := context_words t
  unfold contextWords
  rw [Mem.ld_congr fun x hx => hm x (h₁ hx), Mem.ld_congr fun x hx => hm x (h₂ hx)]

/-- Both words of a context are written. -/
theorem contextWords_sd (m : Mem) (t a b : Word) :
    contextWords ((m.sd (TCB.context t) a).sd (TCB.context t + 8) b) t = (a, b) ∧
    ∀ x ∉ range (TCB.context t) 16,
      ((m.sd (TCB.context t) a).sd (TCB.context t + 8) b) x = m x := by
  obtain ⟨h₁, h₂, h₃⟩ := context_words t
  refine ⟨?_, fun x hx => ?_⟩
  · unfold contextWords
    rw [Mem.ld_sd, Mem.ld_sd_of_disjoint h₃, Mem.ld_sd]
  · rw [Mem.sd_of_notMem fun hx' => hx (h₂ hx'), Mem.sd_of_notMem fun hx' => hx (h₁ hx')]

/-! ## The relation -/

/-- The frame in memory holds the remembered registers, the stack pointer below it. -/
structure Stands (m : Mem) (f : RegFrame) (s : Saved) : Prop where
  kind : f.kind = s.kind
  base : f.base = s.regs sp - 256
  kept : Kept m f.base f.kind.regs (update s.regs sp f.base)

/-- No two of the contexts and frames of the threads overlap. -/
structure Hart.Apart (h : Hart) : Prop where
  frames : ∀ t ∈ h.threads, (h.frames t).Pairwise fun f g =>
    Disjoint (range f.base 256) (range g.base 256)
  threads : ∀ t ∈ h.threads, ∀ u ∈ h.threads, t ≠ u → ∀ f ∈ h.frames t, ∀ g ∈ h.frames u,
    Disjoint (range f.base 256) (range g.base 256)
  contexts : ∀ t ∈ h.threads, ∀ u ∈ h.threads, t ≠ u →
    Disjoint (range (TCB.context t) 16) (range (TCB.context u) 16)
  both : ∀ t ∈ h.threads, ∀ u ∈ h.threads, ∀ f ∈ h.frames u,
    Disjoint (range (TCB.context t) 16) (range f.base 256)

/-- The hart does what the processors of the threads do. -/
structure Implements (h : Hart) (v : Virtual) : Prop where
  control : h.control = v.control
  stvec : h.stvec = v.stvec
  running : h.running = v.running
  live : h.running ∈ h.threads
  nodup : h.threads.Nodup
  regs : h.core.regs = v.regs h.running
  contexts : ∀ t ∈ h.threads, t ≠ h.running →
    contextWords h.core.mem t = (v.regs t ra, v.regs t sp)
  frames : ∀ t ∈ h.threads, List.Forall₂ (Stands h.core.mem) (h.frames t) (v.pending t)
  apart : h.Apart

theorem Stands.congr (hs : Stands m f s) (hm : ∀ x ∈ range f.base 256, m' x = m x) :
    Stands m' f s :=
  ⟨hs.kind, hs.base, hs.kept.congr hm⟩

theorem stands_congr {fs : List RegFrame} {ss : List Saved} (hs : List.Forall₂ (Stands m) fs ss)
    (hm : ∀ f ∈ fs, ∀ x ∈ range f.base 256, m' x = m x) : List.Forall₂ (Stands m') fs ss := by
  induction hs with
  | nil => exact .nil
  | cons hfs _ ih =>
    exact .cons (hfs.congr (hm _ (.head _))) (ih fun f hf => hm f (.tail _ hf))

namespace Hart

theorem context_saved (ht : t ∈ h.threads) (hx : x ∈ range (TCB.context t) 16) : x ∈ h.saved :=
  ⟨t, ht, .inl hx⟩

theorem frame_saved (ht : t ∈ h.threads) (hf : f ∈ h.frames t) (hx : x ∈ range f.base 256) :
    x ∈ h.saved :=
  ⟨t, ht, .inr ⟨f, hf, hx⟩⟩

end Hart

namespace Implements

/-- Other memory than the saved one may change. -/
theorem withMem (hi : Implements h v) (hm : ∀ x ∈ h.saved, m x = h.core.mem x) :
    Implements { h with core := { h.core with mem := m } } v :=
  { hi with
    contexts := fun t ht hne => by
      rw [contextWords_congr fun x hx => hm x (Hart.context_saved ht hx), hi.contexts t ht hne]
    frames := fun t ht => stands_congr (hi.frames t ht) fun f hf x hx =>
      hm x (Hart.frame_saved ht hf hx)
    apart := { hi.apart with } }

/-- The running thread may change its registers. -/
theorem withRegs (hi : Implements h v) (r : Regs) :
    Implements { h with core := { h.core with regs := r } } (v.setRegs r) :=
  { hi with
    regs := by
      rw [hi.running, Virtual.setRegs_self]
    contexts := fun t ht hne => by
      rw [Virtual.setRegs_of_ne (hi.running ▸ hne)]
      exact hi.contexts t ht hne
    apart := { hi.apart with } }

theorem withControl (hi : Implements h v) (control : Control) :
    Implements { h with control } { v with control } :=
  { hi with control := rfl, apart := { hi.apart with } }

theorem ret (hi : Implements h v) : Implements h.ret v.ret := by
  have he : { h.control with pc := h.core.regs ra } =
      { v.control with pc := v.regs v.running ra } := by
    rw [hi.control, hi.regs, hi.running]
  unfold Hart.ret Virtual.ret
  rw [← he]
  exact hi.withControl _

/-- The frames of the running thread and what they stand for. -/
theorem setFrames (hi : Implements h v) (fs : List RegFrame) (ss : List Saved)
    (hs : List.Forall₂ (Stands h.core.mem) fs ss)
    (hpair : fs.Pairwise fun f g => Disjoint (range f.base 256) (range g.base 256))
    (hnew : ∀ f ∈ fs, f ∈ h.frames h.running ∨
      (∀ t ∈ h.threads, Disjoint (range (TCB.context t) 16) (range f.base 256)) ∧
      ∀ t ∈ h.threads, ∀ g ∈ h.frames t, Disjoint (range f.base 256) (range g.base 256)) :
    Implements (h.setFrames fs) (v.setPending ss) := by
  have hrun : (h.setFrames fs).frames h.running = fs := update_self ..
  have hother : ∀ t, t ≠ h.running → (h.setFrames fs).frames t = h.frames t :=
    fun t ht => update_of_ne ht ..
  have hcross : ∀ t ∈ h.threads, t ≠ h.running → ∀ f ∈ fs, ∀ g ∈ h.frames t,
      Disjoint (range f.base 256) (range g.base 256) := fun t ht hne f hf g hg => by
    cases hnew f hf with
    | inl hold => exact hi.apart.threads _ hi.live t ht (Ne.symm hne) f hold g hg
    | inr hfresh => exact hfresh.2 t ht g hg
  refine { hi with frames := fun t ht => ?_, apart := ⟨fun t ht => ?_, fun t ht u hu htu => ?_,
    hi.apart.contexts, fun t ht u hu f hf => ?_⟩ }
  · by_cases hne : t = h.running
    · subst hne
      rw [hrun, hi.running, Virtual.setPending_self]
      exact hs
    · rw [hother t hne, Virtual.setPending_of_ne (hi.running ▸ hne)]
      exact hi.frames t ht
  · by_cases hne : t = h.running
    · rw [hne, hrun]
      exact hpair
    · rw [hother t hne]
      exact hi.apart.frames t ht
  · intro f hf g hg
    by_cases hne : t = h.running
    · rw [hne, hrun] at hf
      have hne' : u ≠ h.running := fun he => htu (hne.trans he.symm)
      rw [hother u hne'] at hg
      exact hcross u hu hne' f hf g hg
    · rw [hother t hne] at hf
      by_cases hne' : u = h.running
      · rw [hne', hrun] at hg
        exact (hcross t ht hne g hg f hf).symm
      · rw [hother u hne'] at hg
        exact hi.apart.threads t ht u hu htu f hf g hg
  · by_cases hne : u = h.running
    · rw [hne, hrun] at hf
      cases hnew f hf with
      | inl hold => exact hi.apart.both t ht _ hi.live f hold
      | inr hfresh => exact hfresh.1 t ht
    · rw [hother u hne] at hf
      exact hi.apart.both t ht u hu f hf

/-- A trap or a call of `pushRegisters` remembers the registers. -/
theorem enter (hi : Implements h v) (hroom : h.Room) (kind : Kind) :
    Implements ({ h with core := execs h.core (.addi sp sp (-256) :: saves kind.regs) }.enter kind)
      (v.enter kind) := by
  obtain ⟨m, he, hk, hx⟩ := execs_enter h.core kind.regs
  have hm : ∀ x ∈ h.saved, m x = h.core.mem x := fun x hs => hx x fun hf =>
    Set.disjoint_left.1 hroom hf hs
  have hi' := (hi.withMem hm).withRegs (h.core.regs.set sp (h.core.regs sp - 256))
  have hbase : (h.core.regs.set sp (h.core.regs sp - 256)) sp = h.core.regs sp - 256 :=
    Regs.set_self (by decide)
  rw [he]
  unfold Hart.enter Virtual.enter
  simp only [hbase, ← hi.running, ← hi.regs]
  refine hi'.setFrames (⟨h.core.regs sp - 256, kind⟩ :: h.frames h.running)
    (⟨h.core.regs, kind⟩ :: v.pending h.running) ?_ ?_ fun f hf => ?_
  · exact .cons ⟨rfl, rfl, hk⟩ (hi'.frames _ hi.live)
  · refine List.pairwise_cons.2 ⟨fun f hf => ?_, hi.apart.frames _ hi.live⟩
    exact hroom.mono_right fun x => Hart.frame_saved hi.live hf
  · rcases List.mem_cons.1 hf with rfl | hf
    · right
      refine ⟨fun t ht => (hroom.mono_right fun x => Hart.context_saved ht).symm, fun t ht g hg => ?_⟩
      exact hroom.mono_right fun x => Hart.frame_saved ht hg
    · exact .inl hf

/-- The innermost frame may be written to, as long as it stands for some registers. -/
theorem withTop {fs : List RegFrame} {ss : List Saved} {s' : Saved} (hi : Implements h v)
    (hf : h.frames h.running = f :: fs) (hp : v.pending h.running = s :: ss)
    (hm : ∀ x ∉ range f.base 256, m x = h.core.mem x) (hs : Stands m f s') :
    Implements { h with core := { h.core with mem := m } } (v.setPending (s' :: ss)) := by
  have hfm : f ∈ h.frames h.running := hf ▸ .head _
  have hpair := hi.apart.frames _ hi.live
  rw [hf, List.pairwise_cons] at hpair
  refine { hi with contexts := fun t ht hne => ?_, frames := fun t ht => ?_,
                   apart := { hi.apart with } }
  · rw [contextWords_congr fun x hx => hm x (Set.disjoint_left.1
      (hi.apart.both t ht _ hi.live f hfm) hx)]
    exact hi.contexts t ht hne
  · by_cases hne : t = h.running
    · subst hne
      have hfr := hi.frames _ hi.live
      rw [hf, hp, List.forall₂_cons] at hfr
      change List.Forall₂ (Stands m) (h.frames h.running) _
      rw [hf, hi.running, Virtual.setPending_self]
      refine .cons hs (stands_congr hfr.2 fun g hg x hx => hm x ?_)
      exact Set.disjoint_right.1 (hpair.1 g hg) hx
    · rw [Virtual.setPending_of_ne (hi.running ▸ hne)]
      exact stands_congr (hi.frames t ht) fun g hg x hx => hm x (Set.disjoint_left.1
        (hi.apart.threads t ht _ hi.live hne g hg f hfm) hx)

/-- The innermost frame is read back and given up. -/
theorem leave {fs : List RegFrame} {ss : List Saved} (hi : Implements h v)
    (hf : h.frames h.running = f :: fs) (hp : v.pending h.running = s :: ss)
    (hsp : h.core.regs sp = f.base) :
    ∃ r, execs h.core (restores f.kind.regs ++ [.addi sp sp 256]) = { h.core with regs := r } ∧
      (∀ i ∈ f.kind.regs, i ≠ 0 → r i = s.regs i) ∧ r sp = s.regs sp ∧
      (∀ i ∉ f.kind.regs, i ≠ sp → r i = h.core.regs i) ∧
      Implements ({ h with core := { h.core with regs := r } }.setFrames fs)
        ((v.setRegs r).setPending ss) := by
  have hfr := hi.frames _ hi.live
  rw [hf, hp, List.forall₂_cons] at hfr
  obtain ⟨⟨hkind, hbase, hkept⟩, hfs⟩ := hfr
  obtain ⟨r, he, h₁, h₂, h₃⟩ := execs_leave (c := h.core) (hsp.trans hbase) (hsp ▸ hkept)
  have hpair := hi.apart.frames _ hi.live
  rw [hf, List.pairwise_cons] at hpair
  refine ⟨r, he, h₁, h₂, h₃, (hi.withRegs r).setFrames fs ss hfs hpair.2 fun g hg => .inl ?_⟩
  change g ∈ h.frames h.running
  rw [hf]
  exact .tail _ hg

end Implements

/-- `contextSwitch` writes one context and reads another. -/
theorem execs_contextSwitch (c : Core) : execs c TCB.contextSwitch =
    ⟨(c.regs.set ra (((c.mem.sd (c.regs a0) (c.regs ra)).sd (c.regs a0 + 8) (c.regs sp)).ld
        (c.regs a1))).set sp (((c.mem.sd (c.regs a0) (c.regs ra)).sd (c.regs a0 + 8)
        (c.regs sp)).ld (c.regs a1 + 8)),
      (c.mem.sd (c.regs a0) (c.regs ra)).sd (c.regs a0 + 8) (c.regs sp)⟩ := by
  have h0 : ∀ w : Word, w + BitVec.ofInt 64 0 = w := fun w => BitVec.add_zero w
  have h8 : BitVec.ofInt 64 8 = (8 : Word) := rfl
  have ha1 : ∀ w, (c.regs.set ra w) a1 = c.regs a1 := fun w => Regs.set_of_ne (by decide)
  simp only [execs, TCB.contextSwitch, List.foldl_cons, List.foldl_nil, exec, h0, h8, ha1]

namespace Implements

theorem contextSwitch (hi : Implements h v) (ht : t ∈ h.threads) :
    ∃ h', h.step (.contextSwitch t) = some h' ∧
      ∃ v', v.step (.contextSwitch t) = some v' ∧ Implements h' v' := by
  refine ⟨_, rfl, _, rfl, ret ?_⟩
  let r := (h.core.regs.set a0 (TCB.context h.running)).set a1 (TCB.context t)
  have ha0 : r a0 = TCB.context h.running := by
    rw [Regs.set_of_ne (by decide), Regs.set_self (by decide)]
  have ha1 : r a1 = TCB.context t := Regs.set_self (by decide)
  have hkeep : ∀ i, i ≠ a0 → i ≠ a1 → r i = v.regs h.running i := fun i h₀ h₁ => by
    rw [Regs.set_of_ne h₁, Regs.set_of_ne h₀, hi.regs]
  have hra := hkeep ra (by decide) (by decide)
  have hsp := hkeep sp (by decide) (by decide)
  have he := execs_contextSwitch { h.core with regs := r }
  simp only [ha0, ha1, hra, hsp] at he
  obtain ⟨hwords, hx⟩ := contextWords_sd h.core.mem h.running (v.regs h.running ra)
    (v.regs h.running sp)
  -- the other contexts and the frames stay
  have hother : ∀ u ∈ h.threads, u ≠ h.running → contextWords ((h.core.mem.sd
      (TCB.context h.running) (v.regs h.running ra)).sd (TCB.context h.running + 8)
      (v.regs h.running sp)) u = (v.regs u ra, v.regs u sp) := fun u hu hne => by
    rw [contextWords_congr fun x hxu => hx x (Set.disjoint_left.1
      (hi.apart.contexts u hu _ hi.live hne) hxu)]
    exact hi.contexts u hu hne
  have hthread : contextWords ((h.core.mem.sd (TCB.context h.running) (v.regs h.running ra)).sd
      (TCB.context h.running + 8) (v.regs h.running sp)) t = (v.regs t ra, v.regs t sp) := by
    by_cases hne : t = h.running
    · rw [hne]
      exact hwords
    · exact hother t ht hne
  obtain ⟨hld, hld'⟩ := Prod.mk.inj hthread
  rw [hld, hld'] at he
  change Implements { h with core := execs { h.core with regs := r } TCB.contextSwitch, running := t }
    (({ v with running := t } : Virtual).setRegs (v.switched t))
  rw [he]
  have hsw : (r.set ra (v.regs t ra)).set sp (v.regs t sp) = v.switched t := by
    unfold Virtual.switched
    rw [← hi.running, ← hi.regs]
  refine { hi with running := rfl, live := ht, regs := ?_, contexts := fun u hu hne => ?_,
                   frames := fun u hu => ?_, apart := { hi.apart with } }
  · exact hsw.trans (Virtual.setRegs_self { v with running := t } _).symm
  · rw [Virtual.setRegs_of_ne (v := { v with running := t }) hne]
    by_cases hur : u = h.running
    · rw [hur]
      exact hwords
    · exact hother u hu hur
  · exact stands_congr (hi.frames u hu) fun f hf x hxf => hx x (Set.disjoint_right.1
      (hi.apart.both _ hi.live u hu f hf) hxf)

/-- Threads that come or go, other than the running one. -/
theorem withThreads {threads : List Word} (hi : Implements h v) (hne : t ≠ h.running)
    (hlive : h.running ∈ threads) (hnodup : threads.Nodup)
    (hthreads : ∀ u ∈ threads, u ≠ t → u ∈ h.threads) (r : Regs)
    (hm : ∀ x ∈ h.saved, m x = h.core.mem x)
    (ht : t ∈ threads → contextWords m t = (r ra, r sp) ∧
      Disjoint (range (TCB.context t) 16) h.saved) :
    Implements { h with core := { h.core with mem := m }, threads
                        frames := update h.frames t [] }
      { v with regs := update v.regs t r, pending := update v.pending t [] } := by
  have hi' := hi.withMem hm
  have hframes : ∀ u f, f ∈ update h.frames t [] u → u ≠ t ∧ f ∈ h.frames u := fun u f hf => by
    by_cases hut : u = t
    · rw [hut, update_self] at hf
      exact absurd hf List.not_mem_nil
    · rw [update_of_ne hut] at hf
      exact ⟨hut, hf⟩
  refine ⟨hi.control, hi.stvec, hi.running, hlive, hnodup, ?_, fun u hu hur => ?_, fun u hu => ?_,
    fun u hu => ?_, fun u hu w hw huw f hf g hg => ?_, fun u hu w hw huw => ?_,
    fun u hu w hw f hf => ?_⟩
  · simp only [update_of_ne (Ne.symm hne), hi.regs]
  · by_cases hut : u = t
    · subst hut
      simp only [update_self]
      exact (ht hu).1
    · simp only [update_of_ne hut]
      exact hi'.contexts u (hthreads u hu hut) hur
  · by_cases hut : u = t
    · subst hut
      simp only [update_self]
      exact .nil
    · simp only [update_of_ne hut]
      exact hi'.frames u (hthreads u hu hut)
  · by_cases hut : u = t
    · subst hut
      simp only [update_self]
      exact .nil
    · simp only [update_of_ne hut]
      exact hi.apart.frames u (hthreads u hu hut)
  · obtain ⟨hut, hf⟩ := hframes u f hf
    obtain ⟨hwt, hg⟩ := hframes w g hg
    exact hi.apart.threads u (hthreads u hu hut) w (hthreads w hw hwt) huw f hf g hg
  · by_cases hut : u = t
    · subst hut
      exact (ht hu).2.mono_right fun x => Hart.context_saved (hthreads w hw (Ne.symm huw))
    · by_cases hwt : w = t
      · subst hwt
        exact ((ht hw).2.mono_right fun x => Hart.context_saved (hthreads u hu hut)).symm
      · exact hi.apart.contexts u (hthreads u hu hut) w (hthreads w hw hwt) huw
  · obtain ⟨hwt, hfw⟩ := hframes w f hf
    by_cases hut : u = t
    · subst hut
      exact (ht hu).2.mono_right fun x => Hart.frame_saved (hthreads w hw hwt) hfw
    · exact hi.apart.both u (hthreads u hu hut) w (hthreads w hw hwt) f hfw

/-- The innermost frame and what it stands for. -/
theorem top (hi : Implements h v) (hf : h.top = some f) : ∃ fs s ss,
    h.frames h.running = f :: fs ∧ v.pending h.running = s :: ss ∧ Stands h.core.mem f s := by
  have hfr := hi.frames _ hi.live
  unfold Hart.top at hf
  cases hl : h.frames h.running with
  | nil =>
    rw [hl] at hf
    cases hf
  | cons g fs =>
    rw [hl, List.head?_cons, Option.some.injEq] at hf
    subst hf
    rw [hl, List.forall₂_cons_left_iff] at hfr
    obtain ⟨s, ss, hs, -, hp⟩ := hfr
    exact ⟨fs, s, ss, rfl, hp, hs⟩

/-- `W_RET` changes the result among the remembered registers. -/
theorem wRet (hi : Implements h v) (hok : h.Ok .wRet) :
    ∃ h', h.step .wRet = some h' ∧ ∃ v', v.step .wRet = some v' ∧ Implements h' v' := by
  obtain ⟨f, locals, hf, hkind, hs0⟩ := hok
  obtain ⟨fs, s, ss, hfs, hp, hs⟩ := hi.top hf
  have hexec : exec h.core Riscv.W_RET =
      { h.core with mem := h.core.mem.sd (slot f.base a0) (h.core.regs a0) } := by
    unfold Riscv.W_RET
    rw [exec, hs0]
    rfl
  refine ⟨_, rfl, v.setPending ({ s with regs := s.regs.set a0 (h.core.regs a0) } :: ss), ?_, ?_⟩
  · unfold Virtual.step
    rw [← hi.running, hp, hi.regs]
  · rw [hexec]
    refine hi.withTop hfs hp (fun x hx => sd_of_notMem_frame hx a0 _) ⟨hs.kind, ?_, fun i hir => ?_⟩
    · rw [Regs.set_of_ne (by decide), hs.base]
    · rw [hs.kept.sd a0 (h.core.regs a0) i hir]
      by_cases hi0 : i = a0
      · rw [hi0, update_self, update_of_ne (by decide), Regs.set_self (by decide)]
      · rw [update_of_ne hi0]
        by_cases hisp : i = sp
        · rw [hisp, update_self, update_self]
        · rw [update_of_ne hisp, update_of_ne hisp, Regs.set_of_ne hi0]

/-- `LOAD_STACK` reads a remembered register. -/
theorem loadStack (hi : Implements h v) (hok : h.Ok .loadStack) :
    ∃ h', h.step .loadStack = some h' ∧ ∃ v', v.step .loadStack = some v' ∧ Implements h' v' := by
  obtain ⟨f, locals, hf, hkind, hs0⟩ := hok
  obtain ⟨fs, s, ss, hfs, hp, hs⟩ := hi.top hf
  have hslot : h.core.mem.ld (slot f.base a4) = s.regs a4 := by
    rw [hs.kept a4 (by rw [hkind]; exact List.mem_finRange a4), update_of_ne (by decide)]
  have hexec : exec h.core Riscv.LOAD_STACK =
      { h.core with regs := h.core.regs.set a4 (s.regs a4) } := by
    unfold Riscv.LOAD_STACK
    rw [← hslot, exec, hs0]
    rfl
  refine ⟨_, rfl, v.setRegs ((v.regs v.running).set a4 (s.regs a4)), ?_, ?_⟩
  · unfold Virtual.step
    rw [← hi.running, hp]
  · rw [hexec, ← hi.running, ← hi.regs]
    exact hi.withRegs _

/-- `trapHandler` returns: the thread has the registers that were remembered. -/
theorem trapEnd (hi : Implements h v) (hok : h.Ok .trapEnd) (hs : h.step .trapEnd = some h') :
    ∃ v', v.step .trapEnd = some v' ∧ Implements h' v' := by
  obtain ⟨f, hf, hsp⟩ := hok
  obtain ⟨fs, s, ss, hfs, hp, hst⟩ := hi.top hf
  obtain ⟨r, he, hr, hrsp, -, hi'⟩ := hi.leave hfs hp hsp
  obtain ⟨base, kind⟩ := f
  cases kind with
  | yield =>
    unfold Hart.step at hs
    rw [hfs] at hs
    cases hs
  | trap locals =>
    obtain ⟨regs, kind⟩ := s
    obtain rfl : Kind.trap locals = kind := hst.kind
    have hregs : r = regs := Regs.ext_of_ne fun i h0 => hr i (List.mem_finRange i) h0
    unfold Hart.step at hs
    rw [hfs, Option.some.injEq] at hs
    subst hs hregs
    refine ⟨_, by unfold Virtual.step; rw [← hi.running, hp], ?_⟩
    rw [show execs h.core Riscv.supervisorTrapEnd = _ from he, hi.control]
    exact hi'.withControl _

/-- `popRegisters`: the thread has the registers that were remembered, but for `ra`. -/
theorem pop (hi : Implements h v) (hok : h.Ok .pop) (hs : h.step .pop = some h') :
    ∃ v', v.step .pop = some v' ∧ Implements h' v' := by
  obtain ⟨f, hf, hsp⟩ := hok
  obtain ⟨fs, s, ss, hfs, hp, hst⟩ := hi.top hf
  obtain ⟨r, he, hr, hrsp, hr', hi'⟩ := hi.leave hfs hp hsp
  obtain ⟨base, kind⟩ := f
  cases kind with
  | trap locals =>
    unfold Hart.step at hs
    rw [hfs] at hs
    cases hs
  | yield =>
    obtain ⟨regs, kind⟩ := s
    obtain rfl : Kind.yield = kind := hst.kind
    have hregs : r = regs.set ra (h.core.regs ra) := Regs.ext_of_ne fun i h0 => by
      by_cases hra : i = ra
      · rw [hra, hr' ra (by change ra ∉ Riscv.upperRegs; decide) (by decide),
          Regs.set_self (by decide)]
      · rw [Regs.set_of_ne hra]
        by_cases hisp : i = sp
        · rw [hisp, hrsp]
        · exact hr i (mem_upperRegs h0 hra hisp) h0
    unfold Hart.step at hs
    rw [hfs, Option.some.injEq] at hs
    subst hs
    refine ⟨_, by unfold Virtual.step; rw [← hi.running, hp], ?_⟩
    rw [show execs h.core Riscv.popRegisters = _ from he, ← hi.regs, ← hregs]
    exact hi'.ret

/-- **The hart implements a processor for each thread**, event by event. -/
theorem step (hi : Implements h v) (hok : h.Ok e) (hs : h.step e = some h') :
    ∃ v', v.step e = some v' ∧ Implements h' v' := by
  cases e with
  | code regs mem pc sie =>
    obtain rfl := Option.some.inj hs
    refine ⟨_, rfl, ?_⟩
    rw [← hi.control]
    exact ((hi.withMem hok).withRegs regs).withControl _
  | trap scause =>
    obtain rfl := Option.some.inj hs
    have hc : h.control.trap h.stvec = v.control.trap v.stvec := by rw [hi.control, hi.stvec]
    refine ⟨_, rfl, ?_⟩
    rw [hc]
    exact (hi.withControl (v.control.trap v.stvec)).enter hok
      (.trap ((v.control.trap v.stvec).locals scause))
  | wRet =>
    obtain ⟨h₁, he, v', hv, hi'⟩ := hi.wRet hok
    obtain rfl := Option.some.inj (he.symm.trans hs)
    exact ⟨v', hv, hi'⟩
  | loadStack =>
    obtain ⟨h₁, he, v', hv, hi'⟩ := hi.loadStack hok
    obtain rfl := Option.some.inj (he.symm.trans hs)
    exact ⟨v', hv, hi'⟩
  | trapEnd => exact hi.trapEnd hok hs
  | push =>
    obtain rfl := Option.some.inj hs
    exact ⟨_, rfl, (hi.enter hok .yield).ret⟩
  | pop => exact hi.pop hok hs
  | contextSwitch t =>
    obtain ⟨h₁, he, v', hv, hi'⟩ := hi.contextSwitch hok
    obtain rfl := Option.some.inj (he.symm.trans hs)
    exact ⟨v', hv, hi'⟩
  | create t ra' sp' =>
    obtain rfl := Option.some.inj hs
    obtain ⟨hnew, hfree⟩ := hok
    obtain ⟨hwords, hx⟩ := contextWords_sd h.core.mem t ra' sp'
    have hne : t ≠ h.running := fun he => hnew (he ▸ hi.live)
    refine ⟨_, rfl, hi.withThreads hne (.tail _ hi.live)
      (List.nodup_cons.2 ⟨hnew, hi.nodup⟩) (fun u hu hne => (List.mem_cons.1 hu).resolve_left hne) _
      (fun x hs => hx x (Set.disjoint_right.1 hfree hs)) fun _ => ⟨?_, hfree⟩⟩
    rw [hwords, Regs.set_of_ne (by decide), Regs.set_self (by decide), Regs.set_self (by decide)]
  | destroy t =>
    obtain rfl := Option.some.inj hs
    refine ⟨_, rfl, ?_⟩
    have h := hi.withThreads (r := v.regs t) (m := h.core.mem) hok ((List.mem_erase_of_ne (Ne.symm hok)).2 hi.live)
      (hi.nodup.erase t) (fun u hu _ => List.mem_of_mem_erase hu) (fun _ _ => rfl)
      fun ht => absurd ht hi.nodup.not_mem_erase
    rw [update_eq_self] at h
    exact h
  | spp fn arg user =>
    obtain rfl := Option.some.inj hs
    refine ⟨_, rfl, ?_⟩
    rw [← hi.control, ← hi.running, ← hi.regs]
    exact (hi.withRegs _).withControl _

end Implements

end SlabKernel
