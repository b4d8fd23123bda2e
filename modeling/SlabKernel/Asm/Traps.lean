import SlabKernel.Asm.Virtual

/-!
# Traps and switches are transparent

What is remembered of a thread stays while the thread's own frame does (`Virtual.step_pending`): it
is changed by `W_RET` of its own handler alone. With `Implements.step` this holds of the hart, in
every run: a thread that returns from a trap has the registers with which it trapped, but for the
result in `a0` (`trap_transparent`), and one that returns from `popRegisters` those with which it
called `pushRegisters` (`yield_transparent`), whatever other threads and nested traps did.
-/

namespace SlabKernel

open Function (update update_self update_of_ne)
open Rv64 Runs

/-! ## What is remembered -/

namespace Virtual

variable {v v' : Virtual} {e : HartEvent} {t : Word} {P rest : List Saved} {s : Saved}

/-- `W_RET` in the handler whose frame is the `n`th one of `t`. -/
def answered (v : Virtual) (t : Word) (n : Nat) : HartEvent → Word → Word
  | .wRet, w => if v.running = t ∧ (v.pending t).length = n then v.regs t a0 else w
  | _, w => w

theorem set_answered (r : Regs) (w w' : Word) : (r.set a0 w).set a0 w' = r.set a0 w' :=
  Regs.ext_of_ne fun i _ => by
    by_cases hi : i = a0
    · rw [hi, Regs.set_self (by decide), Regs.set_self (by decide)]
    · rw [Regs.set_of_ne hi, Regs.set_of_ne hi, Regs.set_of_ne hi]

/-- The list of a thread grows by a member, or some are given up. -/
theorem pending_cases (hs : v.step e = some v') (he : e ≠ .wRet) (t : Word) :
    v'.pending t <:+ v.pending t ∨ ∃ s, v'.pending t = s :: v.pending t := by
  have hset : ∀ {l : List Saved}, l <:+ v.pending v.running →
      update v.pending v.running l t <:+ v.pending t := fun {l} hl => by
    by_cases ht : t = v.running
    · rw [ht, update_self]
      exact hl
    · exact update_of_ne ht .. ▸ List.suffix_rfl
  have hpush : ∀ s, update v.pending v.running (s :: v.pending v.running) t <:+ v.pending t ∨
      ∃ x, update v.pending v.running (s :: v.pending v.running) t = x :: v.pending t := fun s => by
    by_cases ht : t = v.running
    · exact .inr ⟨s, by rw [ht, update_self]⟩
    · rw [update_of_ne ht]
      exact .inl List.suffix_rfl
  have hnil : ∀ u, update v.pending u [] t <:+ v.pending t := fun u => by
    by_cases ht : t = u
    · rw [ht, update_self]
      exact List.nil_suffix
    · exact update_of_ne ht .. ▸ List.suffix_rfl
  cases e with
  | wRet => exact absurd rfl he
  | trap scause =>
    obtain rfl := Option.some.inj hs
    exact hpush ⟨v.regs v.running, .trap ((v.control.trap v.stvec).locals scause)⟩
  | push =>
    obtain rfl := Option.some.inj hs
    exact hpush ⟨v.regs v.running, .yield⟩
  | trapEnd =>
    simp only [step] at hs
    split at hs
    · rename_i regs locals pending hp
      obtain rfl := Option.some.inj hs
      exact .inl (hset (hp ▸ List.suffix_cons _ _))
    · cases hs
  | pop =>
    simp only [step] at hs
    split at hs
    · rename_i regs pending hp
      obtain rfl := Option.some.inj hs
      exact .inl (hset (hp ▸ List.suffix_cons _ _))
    · cases hs
  | loadStack =>
    simp only [step] at hs
    split at hs
    · obtain rfl := Option.some.inj hs
      exact .inl List.suffix_rfl
    · cases hs
  | create u ra' sp' =>
    obtain rfl := Option.some.inj hs
    exact .inl (hnil u)
  | destroy u =>
    obtain rfl := Option.some.inj hs
    exact .inl (hnil u)
  | code | contextSwitch | spp =>
    obtain rfl := Option.some.inj hs
    exact .inl List.suffix_rfl

/-- A thread that does not run keeps its registers. -/
theorem step_regs (hs : v.step e = some v') (hne : v.running ≠ t) (hne' : v'.running ≠ t)
    (hcreate : ∀ ra sp, e ≠ .create t ra sp) : v'.regs t = v.regs t := by
  cases e with
  | create u ra' sp' =>
    obtain rfl := Option.some.inj hs
    have hut : t ≠ u := fun he => hcreate ra' sp' (he ▸ rfl)
    exact update_of_ne hut ..
  | contextSwitch u =>
    obtain rfl := Option.some.inj hs
    exact update_of_ne (Ne.symm hne') ..
  | trapEnd | pop | loadStack =>
    simp only [step] at hs
    split at hs
    · obtain rfl := Option.some.inj hs
      exact update_of_ne (Ne.symm hne) ..
    · cases hs
  | wRet =>
    simp only [step] at hs
    split at hs
    · obtain rfl := Option.some.inj hs
      rfl
    · cases hs
  | destroy u =>
    obtain rfl := Option.some.inj hs
    rfl
  | code | trap | push | spp =>
    obtain rfl := Option.some.inj hs
    exact update_of_ne (Ne.symm hne) ..

/-- An event that does not give up the registers `s` of `t` leaves them, but for an answer. -/
theorem step_pending (hp : v.pending t = P ++ s :: rest) (hs : v.step e = some v')
    (hn : rest.length < (v'.pending t).length) :
    ∃ P' s', v'.pending t = P' ++ s' :: rest ∧ s'.kind = s.kind ∧
      s'.regs = s.regs.set a0 (v.answered t (rest.length + 1) e (s.regs a0)) := by
  have hself : s.regs = s.regs.set a0 (s.regs a0) := (Regs.set_eq_self rfl).symm
  by_cases he : e = .wRet
  · subst he
    unfold step at hs
    cases hpend : v.pending v.running with
    | nil =>
      rw [hpend] at hs
      cases hs
    | cons x l =>
      rw [hpend] at hs
      obtain rfl := Option.some.inj hs
      simp only [answered]
      by_cases ht : v.running = t
      · subst ht
        rw [setPending_self, hp]
        rw [hp] at hpend
        cases P with
        | nil =>
          obtain ⟨rfl, rfl⟩ := List.cons.inj hpend
          refine ⟨[], _, rfl, rfl, ?_⟩
          rw [if_pos ⟨rfl, rfl⟩]
        | cons p P =>
          obtain ⟨rfl, rfl⟩ := List.cons.inj hpend
          refine ⟨_ :: P, s, rfl, rfl, ?_⟩
          rw [if_neg fun h => ?_]
          · exact hself
          · have := h.2
            simp only [List.cons_append, List.length_cons, List.length_append] at this
            omega
      · rw [setPending_of_ne (Ne.symm ht), if_neg fun h => ht h.1]
        exact ⟨P, s, hp, rfl, hself⟩
  · have ha : v.answered t (rest.length + 1) e (s.regs a0) = s.regs a0 := by
      cases e with
      | wRet => exact absurd rfl he
      | _ => rfl
    rw [ha]
    cases pending_cases hs he t with
    | inl hsuf =>
      have hs' : s :: rest <:+ v.pending t := ⟨P, hp.symm⟩
      obtain ⟨P', hP'⟩ := List.suffix_of_suffix_length_le hs' hsuf hn
      exact ⟨P', s, hP'.symm, rfl, hself⟩
    | inr hcons =>
      obtain ⟨x, hx⟩ := hcons
      exact ⟨x :: P, s, by rw [hx, hp, List.cons_append], rfl, hself⟩

end Virtual

/-! ## Runs of the hart -/

namespace Hart

variable {h h' h₀ h₁ h₂ h₃ : Hart} {v v₁ : Virtual} {e : HartEvent} {es es' : List HartEvent}
  {t scause : Word} {n : Nat} {P rest : List Saved} {s : Saved}

/-- The machine at the beginning: only the main thread, and nothing is remembered. -/
def boot (core : Core) (control : Control) (stvec mainThread : Word) : Hart where
  core
  control
  stvec
  running := mainThread
  threads := [mainThread]
  frames _ := []

theorem boot_implements (core : Core) (control : Control) (stvec mainThread : Word) :
    Implements (boot core control stvec mainThread)
      ⟨control, stvec, mainThread, fun _ => core.regs, fun _ => []⟩ where
  control := rfl
  stvec := rfl
  running := rfl
  live := .head _
  nodup := List.pairwise_singleton _ _
  regs := rfl
  contexts t ht hne := absurd (List.mem_singleton.1 ht) hne
  frames _ _ := .nil
  apart := by
    refine ⟨fun _ _ => .nil, fun _ _ _ _ _ f hf => absurd hf List.not_mem_nil,
      fun t ht u hu hne => ?_, fun _ _ _ _ f hf => absurd hf List.not_mem_nil⟩
    exact absurd ((List.mem_singleton.1 ht).trans (List.mem_singleton.1 hu).symm) hne

/-- Each admitted run of the hart is a run of the virtual machine. -/
theorem run_implements (hi : Implements h v) (hrun : Run Ok step h es h') :
    ∃ v', es.foldlM Virtual.step v = some v' ∧ Implements h' v' := by
  induction hrun generalizing v with
  | nil => exact ⟨v, rfl, hi⟩
  | cons hok hs _ ih =>
    obtain ⟨v₁, hv₁, hi₁⟩ := hi.step hok hs
    obtain ⟨v', hv', hi'⟩ := ih hi₁
    refine ⟨v', ?_, hi'⟩
    rw [List.foldlM_cons, hv₁]
    exact hv'

/-- A live thread stays unless it is destroyed. -/
theorem step_live (hs : h.step e = some h') (ht : t ∈ h.threads) (he : e ≠ .destroy t) :
    t ∈ h'.threads := by
  cases e with
  | destroy u =>
    obtain rfl := Option.some.inj hs
    have hut : t ≠ u := fun htu => he (htu ▸ rfl)
    exact (List.mem_erase_of_ne hut).2 ht
  | create u ra' sp' =>
    obtain rfl := Option.some.inj hs
    exact .tail _ ht
  | trapEnd | pop =>
    simp only [step] at hs
    split at hs
    · obtain rfl := Option.some.inj hs
      exact ht
    · cases hs
  | code | trap | wRet | loadStack | push | contextSwitch | spp =>
    obtain rfl := Option.some.inj hs
    exact ht

/-- Admitted events that keep more than `n` frames of `t`. -/
def Above (t : Word) (n : Nat) (h : Hart) (e : HartEvent) : Prop :=
  h.Ok e ∧ ∀ h', h.step e = some h' → n < (h'.frames t).length

/-- `W_RET` in the handler whose frame is the `n`th one of `t`. -/
def answered (h : Hart) (t : Word) (n : Nat) : HartEvent → Word → Word
  | .wRet, w => if h.running = t ∧ (h.frames t).length = n then h.core.regs a0 else w
  | _, w => w

/-- The result that a thread finds in `a0`: that of the last `W_RET` in the handler whose frame is
the `n`th one of `t`, or `w`. -/
def answer (t : Word) (n : Nat) : Hart → List HartEvent → Word → Word
  | _, [], w => w
  | h, e :: es, w =>
    match h.step e with
    | none => w
    | some h' => h'.answer t n es (h.answered t n e w)

theorem answered_eq (hi : Implements h v) (ht : t ∈ h.threads) (n : Nat) (e : HartEvent) (w : Word) :
    h.answered t n e w = v.answered t n e w := by
  cases e with
  | wRet =>
    simp only [answered, Virtual.answered]
    rw [hi.running, (hi.frames t ht).length_eq]
    by_cases hr : v.running = t
    · rw [hi.regs, hi.running, hr]
    · rw [if_neg fun hc => hr hc.1, if_neg fun hc => hr hc.1]
  | _ => rfl

/-- `W_RET` does not write to a frame of `pushRegisters`. -/
theorem answered_yield (hi : Implements h v) (ht : t ∈ h.threads) (hok : h.Ok e)
    (hp : v.pending t = P ++ s :: rest) (hk : s.kind = .yield) (w : Word) :
    h.answered t (rest.length + 1) e w = w := by
  cases e with
  | wRet =>
    refine if_neg fun hc => ?_
    obtain ⟨hrun, hlen⟩ := hc
    obtain ⟨f, locals, hf, hkind, -⟩ := hok
    obtain ⟨fs, s', ss, hfs, hp', hs⟩ := hi.top hf
    rw [(hi.frames t ht).length_eq, hp, List.length_append, List.length_cons] at hlen
    obtain rfl : P = [] := List.length_eq_zero_iff.1 (by omega)
    rw [hrun, hp, List.nil_append, List.cons.injEq] at hp'
    have hky := hs.kind
    rw [hkind, ← hp'.1, hk] at hky
    cases hky
  | _ => rfl

/-- While its frame stays, what is remembered of a thread does, but for the answer. -/
theorem Above.run (hrun : Run (Above t rest.length) step h es h') (hi : Implements h v)
    (ht : t ∈ h.threads) (hp : v.pending t = P ++ s :: rest) : ∃ v' P' s', Implements h' v' ∧
      t ∈ h'.threads ∧ v'.pending t = P' ++ s' :: rest ∧ s'.kind = s.kind ∧
      s'.regs = s.regs.set a0 (h.answer t (rest.length + 1) es (s.regs a0)) ∧
      (s.kind = .yield → s'.regs = s.regs) := by
  induction hrun generalizing v P s with
  | nil => exact ⟨v, P, s, hi, ht, hp, rfl, (Regs.set_eq_self rfl).symm, fun _ => rfl⟩
  | @cons h h₁ h' e es hok hs hrun ih =>
    obtain ⟨hok, hn⟩ := hok
    have hlen := hn h₁ hs
    obtain ⟨v₁, hv, hi₁⟩ := hi.step hok hs
    have ht₁ : t ∈ h₁.threads := step_live hs ht fun he => by
      subst he
      obtain rfl := Option.some.inj hs
      simp only [update_self] at hlen
      exact absurd hlen (Nat.not_lt_zero _)
    rw [(hi₁.frames t ht₁).length_eq] at hlen
    obtain ⟨P₁, s₁, hp₁, hk₁, hr₁⟩ := Virtual.step_pending hp hv hlen
    obtain ⟨v', P', s', hi', ht', hp', hk', hr', hy'⟩ := ih hi₁ ht₁ hp₁
    rw [← answered_eq hi ht] at hr₁
    refine ⟨v', P', s', hi', ht', hp', hk'.trans hk₁, ?_, fun hk => ?_⟩
    · have ha₁ : s₁.regs a0 = h.answered t (rest.length + 1) e (s.regs a0) := by
        rw [hr₁, Regs.set_self (by decide)]
      rw [hr', hr₁, Virtual.set_answered, ← hr₁, ha₁, answer, hs]
    · rw [hy' (hk₁.trans hk), hr₁, answered_yield hi ht hok hp hk, Regs.set_eq_self rfl]

/-! ## Transparency -/

/-- The hart goes on at `pc`, with the privilege and the `SIE` of `c`. -/
def Resumes (c : Control) (pc : Word) (c' : Control) : Prop :=
  c'.pc = pc ∧ c'.supervisor = c.supervisor ∧ c'.sstatus.sie = c.sstatus.sie

/-- **Traps are transparent.** In every run: a thread that traps and whose handler later returns
has its registers again, but for the result in `a0`, which is that of the handler's last `W_RET`.
After a system call it goes on behind the `ecall`, after an interrupt where it was, with the
privilege and the `SIE` of before. In between other threads may run, and traps may be nested. -/
theorem trap_transparent {core : Core} {control : Control} {stvec mainThread : Word}
    (hrun : Run Ok step (boot core control stvec mainThread) es h) (hok : h.Ok (.trap scause))
    (hs : h.step (.trap scause) = some h₁)
    (hrun' : Run (Above h.running (h.frames h.running).length) step h₁ es' h₂)
    (hback : h₂.running = h.running)
    (hlen : (h₂.frames h.running).length = (h.frames h.running).length + 1)
    (hok' : h₂.Ok .trapEnd) (hs' : h₂.step .trapEnd = some h₃) :
    h₃.core.regs = h.core.regs.set a0 (h₁.answer h.running ((h.frames h.running).length + 1) es'
      (h.core.regs a0)) ∧
    (scause = 0x09 ∨ scause = 0x08 → Resumes h.control (h.control.pc + 4) h₃.control) ∧
    (scause = 0x8000000000000001 ∨ scause = 0x8000000000000009 →
      Resumes h.control h.control.pc h₃.control) := by
  obtain ⟨v, -, hi⟩ := run_implements (boot_implements core control stvec mainThread) hrun
  obtain ⟨kind, hkind⟩ : ∃ kind, kind = Kind.trap ((h.control.trap h.stvec).locals scause) :=
    ⟨_, rfl⟩
  obtain ⟨v₁, hv₁, hi₁⟩ := hi.step hok hs
  have hp₁ : v₁.pending h.running = [] ++ ⟨h.core.regs, kind⟩ :: v.pending h.running := by
    obtain rfl := Option.some.inj hv₁
    rw [hkind, hi.regs, hi.control, hi.stvec, hi.running]
    exact update_self ..
  have hrun₁ : h₁.running = h.running := by
    obtain rfl := Option.some.inj hs
    rfl
  have hlive : h.running ∈ h₁.threads := hrun₁ ▸ hi₁.live
  rw [(hi.frames _ hi.live).length_eq] at hrun' hlen ⊢
  obtain ⟨v₂, P, s, hi₂, ht₂, hp₂, hk₂, hr₂, -⟩ := Above.run hrun' hi₁ hlive hp₁
  -- the frame of this trap is the innermost one when the handler returns
  rw [(hi₂.frames _ ht₂).length_eq, hp₂, List.length_append, List.length_cons] at hlen
  obtain rfl : P = [] := List.length_eq_zero_iff.1 (by omega)
  obtain ⟨v₃, hv₃, hi₃⟩ := hi₂.trapEnd hok' hs'
  obtain ⟨regs, kind'⟩ := s
  obtain rfl : kind' = kind := hk₂
  subst hkind
  simp only [Virtual.step] at hv₃
  rw [← hi₂.running, hback, hp₂, List.nil_append] at hv₃
  obtain rfl := Option.some.inj hv₃
  have hregs : h₃.core.regs = regs := by
    rw [hi₃.regs, hi₃.running]
    exact Virtual.setRegs_self v₂ regs
  refine ⟨hregs.trans hr₂, fun hc => ?_, fun hc => ?_⟩
  · rw [hi₃.control]
    unfold Control.locals
    rw [if_pos hc]
    exact ⟨rfl, rfl, rfl⟩
  · rw [hi₃.control]
    unfold Control.locals
    rw [if_neg (by rcases hc with rfl | rfl <;> decide), if_pos hc]
    exact ⟨rfl, rfl, rfl⟩

/-- The stack pointer is `0x10000`, and the TCB of the main thread is at 0. -/
def boot64 : Hart :=
  boot ⟨(default : Regs).set sp 0x10000, fun _ => 0⟩ ⟨0x1000, true, 0, ⟨false, false, true⟩⟩
    0x2000 0

theorem boot64_sp : boot64.core.regs sp = 0x10000 := by
  unfold boot64 boot
  exact Regs.set_self (i := sp) (by decide)

theorem boot64_room : boot64.Room := by
  unfold Room
  rw [boot64_sp, Set.disjoint_left]
  rintro x hx ⟨t, ht, hc | ⟨f, hf, -⟩⟩
  · obtain rfl := List.mem_singleton.1 ht
    rw [mem_range] at hx hc
    unfold TCB.context at hc
    bv_omega
  · exact absurd hf List.not_mem_nil

/-- The handler of a system call writes the result 7. -/
theorem trap_transparent_boot64 : ∃ h₁ es h₂ h₃,
    boot64.step (.trap 9) = some h₁ ∧ Run (Above boot64.running 0) step h₁ es h₂ ∧
    h₂.step .trapEnd = some h₃ ∧ h₃.core.regs = boot64.core.regs.set a0 7 ∧
    Resumes boot64.control (boot64.control.pc + 4) h₃.control := by
  obtain ⟨m, he, -, -⟩ := execs_enter boot64.core Riscv.allRegs
  rw [boot64_sp] at he
  let h₁ : Hart := { boot64 with
    core := ⟨boot64.core.regs.set sp 0xff00, m⟩
    control := boot64.control.trap 0x2000
    frames := update (fun _ => []) 0
      [⟨0xff00, .trap (some (0x1004, ⟨true, true, false⟩))⟩] }
  have hs₁ : boot64.step (.trap 9) = some h₁ := by
    have : execs boot64.core Riscv.supervisorTrap = ⟨boot64.core.regs.set sp 0xff00, m⟩ := he
    simp only [step, this, enter, setFrames]
    rw [Regs.set_self (by decide)]
    rfl
  let r : Regs := ((boot64.core.regs.set sp 0xff00).set s0 0xff00).set a0 7
  let h₂ : Hart := { h₁ with core := ⟨r, m⟩ }
  let h₃ : Hart := { h₂ with core := exec h₂.core Riscv.W_RET }
  have hsp : r sp = 0xff00 := by
    rw [Regs.set_of_ne (by decide), Regs.set_of_ne (by decide), Regs.set_self (by decide)]
  have hs0 : r s0 = 0xff00 := by
    rw [Regs.set_of_ne (by decide), Regs.set_self (by decide)]
  have ha0 : r a0 = 7 := Regs.set_self (by decide)
  have hrun : Run (Above boot64.running 0) step h₁ [.code r m 0x2000 false, .wRet] h₃ := by
    have hs₂ : h₁.step (.code r m 0x2000 false) = some h₂ := rfl
    refine .cons ⟨fun _ _ => rfl, ?_⟩ hs₂ (.cons ⟨?_, ?_⟩ rfl .nil)
    · rintro h' hs
      obtain rfl := Option.some.inj hs
      exact Nat.one_pos
    · exact ⟨_, _, rfl, rfl, hs0⟩
    · rintro h' hs
      obtain rfl := Option.some.inj hs
      exact Nat.one_pos
  have hok : h₃.Ok .trapEnd := ⟨_, rfl, hsp⟩
  obtain ⟨h₄, hs₄⟩ : ∃ h₄, h₃.step .trapEnd = some h₄ := ⟨_, rfl⟩
  obtain ⟨hregs, hcall, -⟩ := trap_transparent .nil boot64_room hs₁ hrun rfl rfl hok hs₄
  refine ⟨h₁, _, h₃, h₄, hs₁, hrun, hs₄, hregs.trans ?_, hcall (.inl rfl)⟩
  exact congrArg _ ha0

/-- **A thread that yields has its registers again**, all but `ra`, when `popRegisters` returns,
though the context has but two of them. -/
theorem yield_transparent {core : Core} {control : Control} {stvec mainThread : Word}
    (hrun : Run Ok step (boot core control stvec mainThread) es h) (hok : h.Ok .push)
    (hs : h.step .push = some h₁)
    (hrun' : Run (Above h.running (h.frames h.running).length) step h₁ es' h₂)
    (hback : h₂.running = h.running)
    (hlen : (h₂.frames h.running).length = (h.frames h.running).length + 1)
    (hok' : h₂.Ok .pop) (hs' : h₂.step .pop = some h₃) :
    h₃.core.regs = h.core.regs.set ra (h₂.core.regs ra) := by
  obtain ⟨v, -, hi⟩ := run_implements (boot_implements core control stvec mainThread) hrun
  obtain ⟨v₁, hv₁, hi₁⟩ := hi.step hok hs
  have hp₁ : v₁.pending h.running = [] ++ ⟨h.core.regs, .yield⟩ :: v.pending h.running := by
    obtain rfl := Option.some.inj hv₁
    rw [hi.regs, hi.running]
    exact update_self ..
  have hrun₁ : h₁.running = h.running := by
    obtain rfl := Option.some.inj hs
    rfl
  have hlive : h.running ∈ h₁.threads := hrun₁ ▸ hi₁.live
  rw [(hi.frames _ hi.live).length_eq] at hrun' hlen
  obtain ⟨v₂, P, s, hi₂, ht₂, hp₂, hk₂, -, hy₂⟩ := Above.run hrun' hi₁ hlive hp₁
  rw [(hi₂.frames _ ht₂).length_eq, hp₂, List.length_append, List.length_cons] at hlen
  obtain rfl : P = [] := List.length_eq_zero_iff.1 (by omega)
  obtain ⟨v₃, hv₃, hi₃⟩ := hi₂.pop hok' hs'
  obtain ⟨regs, kind⟩ := s
  obtain rfl : kind = .yield := hk₂
  obtain rfl : regs = h.core.regs := hy₂ rfl
  simp only [Virtual.step] at hv₃
  rw [← hi₂.running, hback, hp₂, List.nil_append] at hv₃
  obtain rfl := Option.some.inj hv₃
  rw [hi₃.regs, hi₃.running, hi₂.regs, hback]
  exact Virtual.setRegs_self v₂ _

/-- The code between the calls leaves 5 in every register but the stack pointer. -/
theorem yield_transparent_boot64 : ∃ h₁ es h₂ h₃,
    boot64.step .push = some h₁ ∧ Run (Above boot64.running 0) step h₁ es h₂ ∧
    h₂.step .pop = some h₃ ∧ h₂.core.regs s0 = 5 ∧
    h₃.core.regs = boot64.core.regs.set ra (h₂.core.regs ra) := by
  obtain ⟨m, he, -, -⟩ := execs_enter boot64.core Riscv.upperRegs
  rw [boot64_sp] at he
  let h₁ : Hart := Hart.ret { boot64 with
    core := ⟨boot64.core.regs.set sp 0xff00, m⟩
    frames := update (fun _ => []) 0 [⟨0xff00, .yield⟩] }
  have hs₁ : boot64.step .push = some h₁ := by
    have : execs boot64.core Riscv.pushRegisters = ⟨boot64.core.regs.set sp 0xff00, m⟩ := he
    simp only [step, this, enter, setFrames]
    rw [Regs.set_self (by decide)]
    rfl
  let r : Regs := Regs.set ⟨fun i => if i = 0 then 0 else 5, rfl⟩ sp 0xff00
  let h₂ : Hart := { h₁ with core := ⟨r, m⟩ }
  have hrun : Run (Above boot64.running 0) step h₁ [.code r m (h₁.core.regs ra) true] h₂ := by
    have hs₂ : h₁.step (.code r m (h₁.core.regs ra) true) = some h₂ := rfl
    refine .cons ⟨fun _ _ => rfl, ?_⟩ hs₂ .nil
    rintro h' hs
    obtain rfl := Option.some.inj hs
    exact Nat.one_pos
  have hs0 : r s0 = 5 := Regs.set_of_ne (by decide)
  have hsp : r sp = 0xff00 := Regs.set_self (by decide)
  have hok : h₂.Ok .pop := ⟨_, rfl, hsp⟩
  obtain ⟨h₃, hs₃⟩ : ∃ h₃, h₂.step .pop = some h₃ := ⟨_, rfl⟩
  exact ⟨h₁, _, h₂, h₃, hs₁, hrun, hs₃, hs0,
    yield_transparent .nil boot64_room hs₁ hrun rfl rfl hok hs₃⟩

/-! ## The refinement -/

/-- **The hart is a machine with registers for each thread.** Every admitted run from the beginning
is a run of the virtual machine, in which the code of a thread changes no registers but its own,
and the two machines agree on what the running thread sees. -/
theorem hart_refines_virtual {core : Core} {control : Control} {stvec mainThread : Word}
    (hrun : Run Ok step (boot core control stvec mainThread) es h) :
    ∃ v, es.foldlM Virtual.step ⟨control, stvec, mainThread, fun _ => core.regs, fun _ => []⟩ =
        some v ∧ Implements h v ∧ h.running = v.running ∧ h.control = v.control ∧
      h.core.regs = v.regs h.running := by
  obtain ⟨v, hv, hi⟩ := run_implements (boot_implements core control stvec mainThread) hrun
  exact ⟨v, hv, hi, hi.running, hi.control, hi.regs⟩

/-- The new thread's context is in memory that is not in use. -/
theorem boot64_create : boot64.Ok (.create 0x100 0x3000 0x8000) := by
  refine ⟨by decide, Set.disjoint_left.2 ?_⟩
  rintro x hx ⟨t, ht, hc | ⟨f, hf, -⟩⟩
  · obtain rfl := List.mem_singleton.1 ht
    rw [mem_range] at hx hc
    unfold TCB.context at hx hc
    bv_omega
  · exact absurd hf List.not_mem_nil

theorem hart_refines_virtual_boot64 : ∃ h v,
    Run Ok step boot64 [.create 0x100 0x3000 0x8000, .contextSwitch 0x100] h ∧
    Implements h v ∧ v.running = 0x100 ∧ v.regs 0x100 sp = 0x8000 := by
  have hrun : Run Ok step boot64 [.create 0x100 0x3000 0x8000, .contextSwitch 0x100] _ :=
    .cons boot64_create rfl (.cons (.head _) rfl .nil)
  obtain ⟨v, -, hi, hrunning, -, hregs⟩ := hart_refines_virtual hrun
  have hregs : _ = v.regs 0x100 := hregs
  refine ⟨_, v, hrun, hi, hrunning.symm, ?_⟩
  rw [← hregs]
  decide +kernel

/-! ## Switches -/

/-- Admitted events after which `t` does not run, and which leave it its context. -/
def Away (t : Word) (h : Hart) (e : HartEvent) : Prop :=
  h.Ok e ∧ e ≠ .destroy t ∧ ∀ h', h.step e = some h' → h'.running ≠ t

/-- The others leave a thread its registers `ra` and `sp`. -/
theorem Away.run (hrun : Run (Away t) step h es h') (hi : Implements h v) (ht : t ∈ h.threads)
    (hne : h.running ≠ t) : ∃ v', Implements h' v' ∧ v'.regs t = v.regs t ∧ h'.running ≠ t := by
  induction hrun generalizing v with
  | nil => exact ⟨v, hi, rfl, hne⟩
  | @cons h h₁ h' e es hok hs hrun ih =>
    obtain ⟨hok, hdestroy, hrun₁⟩ := hok
    obtain ⟨v₁, hv, hi₁⟩ := hi.step hok hs
    have ht₁ : t ∈ h₁.threads := step_live hs ht hdestroy
    have hcreate : ∀ ra' sp', e ≠ .create t ra' sp' := fun ra' sp' he => by
      subst he
      exact hok.1 ht
    obtain ⟨v', hi', hr', hne'⟩ := ih hi₁ ht₁ (hrun₁ h₁ hs)
    refine ⟨v', hi', hr'.trans ?_, hne'⟩
    exact Virtual.step_regs hv (hi.running ▸ hne) (hi₁.running ▸ hrun₁ h₁ hs) hcreate

/-- A thread that has given up the processor goes on behind its call of `contextSwitch`, with its
stack pointer. -/
theorem switch_returns {core : Core} {control : Control} {stvec mainThread u : Word}
    (hrun : Run Ok step (boot core control stvec mainThread) es h) (hu : u ≠ h.running)
    (hok : h.Ok (.contextSwitch u)) (hs : h.step (.contextSwitch u) = some h₁)
    (hrun' : Run (Away h.running) step h₁ es' h₂) (hok' : h₂.Ok (.contextSwitch h.running))
    (hs' : h₂.step (.contextSwitch h.running) = some h₃) :
    h₃.control.pc = h.core.regs ra ∧ h₃.core.regs ra = h.core.regs ra ∧
      h₃.core.regs sp = h.core.regs sp := by
  obtain ⟨v, -, hi⟩ := run_implements (boot_implements core control stvec mainThread) hrun
  obtain ⟨v₁, hv₁, hi₁⟩ := hi.step hok hs
  have hrun₁ : h₁.running = u := by
    obtain rfl := Option.some.inj hs
    rfl
  have hthreads : h.running ∈ h₁.threads := by
    obtain rfl := Option.some.inj hs
    exact hi.live
  have hregs₁ : v₁.regs h.running = h.core.regs := by
    obtain rfl := Option.some.inj hv₁
    rw [hi.regs]
    exact update_of_ne (Ne.symm hu) ..
  obtain ⟨v₂, hi₂, hr₂, hne₂⟩ := Away.run hrun' hi₁ hthreads (hrun₁ ▸ hu)
  obtain ⟨v₃, hv₃, hi₃⟩ := hi₂.step hok' hs'
  obtain rfl := Option.some.inj hv₃
  have hregs : h₃.core.regs = v₂.switched h.running := by
    rw [hi₃.regs, hi₃.running]
    exact update_self ..
  have hra : h₃.core.regs ra = h.core.regs ra := by
    rw [hregs, Virtual.switched, Regs.set_of_ne (by decide), Regs.set_self (by decide), hr₂, hregs₁]
  have hsp : h₃.core.regs sp = h.core.regs sp := by
    rw [hregs, Virtual.switched, Regs.set_self (by decide), hr₂, hregs₁]
  refine ⟨?_, hra, hsp⟩
  have hpc : h₃.control.pc = h₃.core.regs ra := by
    obtain rfl := Option.some.inj hs'
    rfl
  rw [hpc, hra]

/-- The main thread gives way to a new thread at `0x100`, which gives way to it. -/
theorem switch_returns_boot64 : ∃ h h₁ h₂,
    boot64.step (.create 0x100 0x3000 0x8000) = some h ∧ h.step (.contextSwitch 0x100) = some h₁ ∧
    h₁.step (.contextSwitch 0) = some h₂ ∧ h₁.control.pc = 0x3000 ∧
    h₂.control.pc = h.core.regs ra ∧ h₂.core.regs sp = 0x10000 := by
  have hrun : Run Ok step boot64 [.create 0x100 0x3000 0x8000] _ := .cons boot64_create rfl .nil
  obtain ⟨hpc, -, hsp⟩ := switch_returns hrun (u := 0x100) (by decide) (.head _) rfl .nil
    (.tail _ (.head _)) rfl
  exact ⟨_, _, _, rfl, rfl, rfl, by decide +kernel, hpc, hsp.trans boot64_sp⟩

end Hart

end SlabKernel
