import SlabKernel.Lib.Run
import SlabKernel.Lib.Rv64
import Mathlib.Data.Fintype.Basic

/-!
# The lock of the printing functions (`lock.S`, `printing.cpp`)

`LOCK` and `UNLOCK` call `copy_and_swap` until it succeeds. The threads run one instruction at a
time, in any order; each has its own registers (`Asm/Virtual.lean`), but all share the one
reservation of the hart, which a switch does not clear. A store conditional of a thread succeeds
with the reservation of another one's `lr.w`. `Printing.Ok` admits the runs in which no thread
executes `lr.w` while another one is between a successful comparison and its `sc.w`; in these the
lock excludes (`Inv`), and strings come out whole (`printString_atomic`).
-/

namespace SlabKernel

open Function (update update_self update_of_ne)
open Rv64 Runs

/-- `copy_and_swap`; the label `fail` is the instruction 6. -/
def copy_and_swap : List Instr := [
  .lrw t0 a0,
  .bne t0 a1 6,
  .scw t0 a2 a0,
  .bne t0 x0 0,
  .li a0 0,
  .jr ra,
  .li a0 1,
  .jr ra]

/-- Where a thread is in `printString`: outside, in `copy_and_swap(lockPrint, 0, 1)` of `LOCK` or
`copy_and_swap(lockPrint, 1, 0)` of `UNLOCK`, or in the loop, having printed `n` characters. -/
inductive Place
  | outside
  | calling (unlock : Bool) (pc : Nat)
  | printing (n : Nat)
  deriving DecidableEq

structure Printer where
  place : Place
  regs : Regs
  string : List Char

/-- The threads, the memory with `lockPrint`, and the characters given to `putc`. The strings whose
loop has ended are recorded, with the thread. -/
structure Printing (ι : Type) where
  lockPrint : Word
  shared : Shared
  thread : ι → Printer
  out : List Char
  strings : List (ι × List Char)

/-- The lock's value when it is free or taken. -/
def lockValue (taken : Bool) : Word := if taken then 1 else 0

namespace Printing

variable {ι : Type}

/-- The call of `copy_and_swap` in `LOCK` or `UNLOCK`. -/
def call (s : Printing ι) (unlock : Bool) (p : Printer) : Printer :=
  { p with
    place := .calling unlock 0
    regs := ((p.regs.set a0 s.lockPrint).set a1 (lockValue unlock)).set a2 (lockValue !unlock) }

inductive Event (ι : Type)
  | printString (t : ι) (string : List Char)
  | run (t : ι) (ok : Bool)

variable [DecidableEq ι]

def set (s : Printing ι) (t : ι) (p : Printer) : Printing ι :=
  { s with thread := update s.thread t p }

/-- One step of the thread `t`: an instruction of `copy_and_swap`, or a round of the loop. -/
def run (s : Printing ι) (t : ι) (ok : Bool) : Option (Printing ι) :=
  let p := s.thread t
  match p.place with
  | .outside => none
  | .calling unlock pc => do
    let i ← copy_and_swap[pc]?
    let (regs, shared, next) := i.exec pc p.regs s.shared ok
    let p := { p with regs }
    let s := { s with shared }
    match next with
    | some pc => return s.set t { p with place := .calling unlock pc }
    | none =>
      if regs a0 ≠ 0 then return s.set t (s.call unlock p)
      else if unlock then return s.set t { p with place := .outside }
      else return s.set t { p with place := .printing 0 }
  | .printing n =>
    match p.string[n]? with
    | some c => some { s.set t { p with place := .printing (n + 1) } with out := s.out ++ [c] }
    | none => some { s.set t (s.call true p) with strings := s.strings ++ [(t, p.string)] }

def step (s : Printing ι) : Event ι → Option (Printing ι)
  | .printString t string =>
    match (s.thread t).place with
    | .outside => some (s.set t (s.call false { s.thread t with string }))
    | _ => none
  | .run t ok => s.run t ok

end Printing

namespace Printer

/-- The thread is before its `lr.w`. -/
def Loads (p : Printer) : Prop := ∃ unlock, p.place = .calling unlock 0

/-- The thread has read the value that it expects, and its `sc.w` is still to come. -/
def Armed (p : Printer) : Prop :=
  ∃ unlock, p.place = .calling unlock 1 ∧ p.regs t0 = p.regs a1 ∨ p.place = .calling unlock 2

/-- The lock is taken after the `sc.w` of `LOCK`, and until that of `UNLOCK`; `r` is its result. -/
def HoldsAt (unlock : Bool) (pc : Nat) (r : Word) : Prop :=
  if unlock then pc < 3 ∨ pc = 3 ∧ r ≠ 0 else pc = 3 ∧ r = 0 ∨ pc = 4 ∨ pc = 5

/-- The thread has the lock. -/
def Holds (p : Printer) : Prop :=
  match p.place with
  | .outside => False
  | .calling unlock pc => HoldsAt unlock pc (p.regs t0)
  | .printing _ => True

/-- What the registers hold during a call. -/
structure Calling (r : Regs) (lock : Word) (unlock : Bool) (pc : Nat) : Prop where
  expected : r a1 = lockValue unlock
  desired : r a2 = lockValue !unlock
  address : pc ≤ 3 → r a0 = lock
  done : pc = 5 → r a0 = 0
  fail : pc = 7 → r a0 = 1
  read : pc = 1 → unlock = true → r t0 = 1
  path : unlock = true → pc < 6

def Wf (p : Printer) (lock : Word) : Prop :=
  ∀ unlock pc, p.place = .calling unlock pc → Calling p.regs lock unlock pc

variable {p : Printer} {unlock : Bool} {pc : Nat}

theorem holds_calling (h : p.place = .calling unlock pc) :
    p.Holds ↔ HoldsAt unlock pc (p.regs t0) := by
  unfold Holds
  rw [h]

theorem armed_calling (h : p.place = .calling unlock pc) :
    p.Armed ↔ pc = 1 ∧ p.regs t0 = p.regs a1 ∨ pc = 2 := by
  unfold Armed
  simp only [h, Place.calling.injEq, exists_or, exists_and_right, exists_eq', true_and]

end Printer

namespace Printing

variable {ι : Type}

/-- No thread loads the lock while another one is about to store to it. -/
def Ok (s : Printing ι) : Event ι → Prop
  | .printString _ _ => True
  | .run t _ => (s.thread t).Loads → ∀ u, u ≠ t → ¬ (s.thread u).Armed

def value (s : Printing ι) : Word := s.shared.mem.lw s.lockPrint

/-- The lock is taken iff a thread has it, and at most one does. -/
structure Inv (s : Printing ι) : Prop where
  wf : ∀ t, (s.thread t).Wf s.lockPrint
  armed : ∀ t, (s.thread t).Armed → s.value = (s.thread t).regs a1
  one : ∀ t u, (s.thread t).Armed → (s.thread u).Armed → t = u
  unique : ∀ t u, (s.thread t).Holds → (s.thread u).Holds → t = u
  taken : (∃ t, (s.thread t).Holds) → s.value = 1
  free : (∀ t, ¬ (s.thread t).Holds) → s.value = 0

variable [DecidableEq ι] {s s' : Printing ι} {t u : ι} {p : Printer} {e : Event ι}

/-! ## Steps -/

/-- A step that leaves the lock's value and its holder. -/
theorem Inv.move (h : s.Inv) (shared : Shared)
    (hvalue : shared.mem.lw s.lockPrint = s.value) (hwf : p.Wf s.lockPrint)
    (hholds : p.Holds ↔ (s.thread t).Holds)
    (harmed : p.Armed → s.value = p.regs a1 ∧ ∀ u, u ≠ t → ¬ (s.thread u).Armed) :
    ({ s with shared }.set t p).Inv := by
  have hself : ({ s with shared }.set t p).thread t = p := update_self ..
  have hother : ∀ u, u ≠ t → ({ s with shared }.set t p).thread u = s.thread u :=
    fun u hu => update_of_ne hu ..
  have hh : ∀ u, (({ s with shared }.set t p).thread u).Holds ↔ (s.thread u).Holds := fun u => by
    by_cases hu : u = t
    · rw [hu, hself, hholds]
    · rw [hother u hu]
  have hv : ({ s with shared }.set t p).value = s.value := hvalue
  refine ⟨fun u => ?_, fun u ha => ?_, fun u w ha hb => ?_, fun u w ha hb => ?_, fun ha => ?_,
    fun ha => ?_⟩
  · by_cases hu : u = t
    · rw [hu, hself]
      exact hwf
    · rw [hother u hu]
      exact h.wf u
  · rw [hv]
    by_cases hu : u = t
    · rw [hu, hself] at ha ⊢
      exact (harmed ha).1
    · rw [hother u hu] at ha ⊢
      exact h.armed u ha
  · by_cases hu : u = t
    · by_cases hw : w = t
      · rw [hu, hw]
      · rw [hu, hself] at ha
        rw [hother w hw] at hb
        exact absurd hb ((harmed ha).2 w hw)
    · rw [hother u hu] at ha
      by_cases hw : w = t
      · rw [hw, hself] at hb
        exact absurd ha ((harmed hb).2 u hu)
      · rw [hother w hw] at hb
        exact h.one u w ha hb
  · exact h.unique u w ((hh u).1 ha) ((hh w).1 hb)
  · obtain ⟨u, hu⟩ := ha
    rw [hv, h.taken ⟨u, (hh u).1 hu⟩]
  · rw [hv, h.free fun u hu => ha u ((hh u).2 hu)]

/-- The store conditional succeeds: the thread gets the lock, or gives it back. -/
theorem Inv.store {b : Bool} (h : s.Inv) (hpl : (s.thread t).place = .calling b 2) :
    ({ s with shared := ⟨s.shared.mem.sw ((s.thread t).regs a0) ((s.thread t).regs a2), none⟩ }.set t
      { s.thread t with place := .calling b 3, regs := (s.thread t).regs.set t0 0 }).Inv := by
  have hc := h.wf t b 2 hpl
  let p : Printer := { s.thread t with place := .calling b 3, regs := (s.thread t).regs.set t0 0 }
  let s' : Printing ι := { s with
    shared := ⟨s.shared.mem.sw ((s.thread t).regs a0) ((s.thread t).regs a2), none⟩ }.set t p
  have hself : s'.thread t = p := update_self ..
  have hother : ∀ u, u ≠ t → s'.thread u = s.thread u := fun u hu => update_of_ne hu ..
  have hregs : ∀ i, i ≠ t0 → p.regs i = (s.thread t).regs i := fun i hi => Regs.set_of_ne hi
  have ht0 : p.regs t0 = 0 := Regs.set_self (i := t0) (by decide)
  have harm : (s.thread t).Armed := ⟨b, .inr hpl⟩
  have hnot : ∀ u, u ≠ t → ¬ (s.thread u).Armed := fun u hu ha => hu (h.one u t ha harm)
  have hval : s.value = lockValue b := (h.armed t harm).trans hc.expected
  have hval' : s'.value = lockValue !b := by
    change (s.shared.mem.sw ((s.thread t).regs a0) ((s.thread t).regs a2)).lw s.lockPrint = _
    rw [hc.address (by decide), hc.desired, Mem.lw_sw_of_lt (by cases b <;> decide)]
  have hholds : p.Holds ↔ b = false := by
    rw [Printer.holds_calling rfl, ht0]
    cases b <;> simp [Printer.HoldsAt]
  -- no other thread has the lock
  have hfree : ∀ u, u ≠ t → ¬ (s.thread u).Holds := fun u hu hh => by
    cases b with
    | false =>
      have := h.taken ⟨u, hh⟩
      rw [hval] at this
      exact absurd this (by decide)
    | true =>
      refine hu (h.unique u t hh ?_)
      rw [Printer.holds_calling hpl]
      exact .inl (by decide)
  have harmed : ∀ u, ¬ (s'.thread u).Armed := fun u ha => by
    by_cases hu : u = t
    · rw [hu, hself, Printer.armed_calling rfl] at ha
      simp at ha
    · rw [hother u hu] at ha
      exact hnot u hu ha
  have hh : ∀ u, (s'.thread u).Holds → u = t ∧ b = false := fun u hu => by
    by_cases hut : u = t
    · rw [hut, hself] at hu
      exact ⟨hut, hholds.1 hu⟩
    · rw [hother u hut] at hu
      exact absurd hu (hfree u hut)
  refine ⟨fun u => ?_, fun u ha => absurd ha (harmed u), fun u w ha => absurd ha (harmed u),
    fun u w ha hb => (hh u ha).1.trans (hh w hb).1.symm, fun ha => ?_, fun ha => ?_⟩
  · by_cases hu : u = t
    · change (s'.thread u).Wf s.lockPrint
      rw [hu, hself]
      rintro b' pc hpl'
      obtain ⟨rfl, rfl⟩ := Place.calling.inj hpl'
      refine ⟨?_, ?_, fun _ => ?_, by simp, by simp, by simp, by simp⟩
      · rw [hregs a1 (by decide), hc.expected]
      · rw [hregs a2 (by decide), hc.desired]
      · rw [hregs a0 (by decide), hc.address (by decide)]
    · change (s'.thread u).Wf s.lockPrint
      rw [hother u hu]
      exact h.wf u
  · obtain ⟨u, hu⟩ := ha
    change s'.value = 1
    rw [hval', (hh u hu).2]
    rfl
  · change s'.value = 0
    cases b with
    | true => exact hval'
    | false =>
      refine absurd ?_ (ha t)
      change (s'.thread t).Holds
      rw [hself]
      exact hholds.2 rfl

omit [DecidableEq ι] in
theorem call_wf (s : Printing ι) (b : Bool) (p : Printer) : (s.call b p).Wf s.lockPrint := by
  rintro b' pc hpl
  obtain ⟨rfl, rfl⟩ := Place.calling.inj hpl
  have hregs : (s.call b p).regs =
      ((p.regs.set a0 s.lockPrint).set a1 (lockValue b)).set a2 (lockValue !b) := rfl
  refine ⟨?_, ?_, fun _ => ?_, by simp, by simp, by simp, by simp⟩
  · rw [hregs, Regs.set_of_ne (by decide), Regs.set_self (by decide)]
  · rw [hregs, Regs.set_self (by decide)]
  · rw [hregs, Regs.set_of_ne (by decide), Regs.set_of_ne (by decide), Regs.set_self (by decide)]

omit [DecidableEq ι] in
theorem call_armed (s : Printing ι) (b : Bool) (p : Printer) : ¬ (s.call b p).Armed := by
  rw [Printer.armed_calling rfl]
  simp

/-- A call begins with the lock where it was. -/
theorem Inv.call {b : Bool} (h : s.Inv) (p : Printer) (hholds : (s.thread t).Holds ↔ b = true) :
    (s.set t (s.call b p)).Inv := by
  refine h.move s.shared rfl (call_wf s b p) ?_ fun ha => absurd ha (call_armed s b p)
  rw [hholds, Printer.holds_calling rfl]
  cases b <;> simp [Printer.HoldsAt]

/-- An instruction that does not change the lock. -/
theorem Inv.next {b : Bool} {pc pc' : Nat} {shared : Shared} {regs : Regs} (h : s.Inv)
    (hpl : (s.thread t).place = .calling b pc) (hvalue : shared.mem.lw s.lockPrint = s.value)
    (hc : Printer.Calling regs s.lockPrint b pc')
    (hholds : Printer.HoldsAt b pc' (regs t0) ↔ Printer.HoldsAt b pc ((s.thread t).regs t0))
    (harmed : pc' = 1 ∧ regs t0 = lockValue b ∨ pc' = 2 →
      s.value = lockValue b ∧ ∀ u, u ≠ t → ¬ (s.thread u).Armed) :
    ({ s with shared }.set t { s.thread t with place := .calling b pc', regs }).Inv := by
  refine h.move shared hvalue (fun b' pc₁ he => ?_) ?_ fun ha => ?_
  · obtain ⟨rfl, rfl⟩ := Place.calling.inj he
    exact hc
  · rw [Printer.holds_calling rfl, Printer.holds_calling hpl]
    exact hholds
  · rw [Printer.armed_calling rfl] at ha
    simp only [hc.expected] at ha ⊢
    exact harmed ha

/-- One instruction of `copy_and_swap`. -/
theorem Inv.instr {b ok : Bool} {pc : Nat} (h : s.Inv) (hok : s.Ok (.run t ok))
    (hpl : (s.thread t).place = .calling b pc) (hs : s.run t ok = some s') : s'.Inv := by
  have hc := h.wf t b pc hpl
  have hholds := Printer.holds_calling hpl
  have hset : ∀ i v, i ≠ t0 → ((s.thread t).regs.set t0 v) i = (s.thread t).regs i :=
    fun i v hi => Regs.set_of_ne hi
  have hself : ∀ v, ((s.thread t).regs.set t0 v) t0 = v := fun v => Regs.set_self (i := t0) (by decide)
  -- the thread is about to store
  have hstore : (s.thread t).Armed → s.value = lockValue b ∧
      ∀ u, u ≠ t → ¬ (s.thread u).Armed := fun ha =>
    ⟨(h.armed t ha).trans hc.expected, fun u hu hb => hu (h.one u t hb ha)⟩
  simp only [run, hpl] at hs
  obtain ⟨i, hi, hs⟩ := Option.bind_eq_some_iff.1 hs
  match pc, hi with
  | 0, hi =>
    obtain rfl := Option.some.inj hi
    simp only [Instr.exec, Option.pure_def, Option.some.injEq] at hs
    subst hs
    have hload : s.shared.mem.lw ((s.thread t).regs a0) = s.value := by
      rw [hc.address (by decide)]
      rfl
    refine h.next hpl rfl ⟨?_, ?_, fun _ => ?_, by simp, by simp, fun _ hb => ?_, by simp⟩ ?_ ?_
    · rw [hset a1 _ (by decide), hc.expected]
    · rw [hset a2 _ (by decide), hc.desired]
    · rw [hset a0 _ (by decide), hc.address (by decide)]
    · rw [hself, hload, h.taken ⟨t, hholds.2 (by simp [Printer.HoldsAt, hb])⟩]
    · simp [Printer.HoldsAt]
    · rintro (⟨-, hv⟩ | hpc)
      · rw [hself, hload] at hv
        exact ⟨hv, hok ⟨b, hpl⟩⟩
      · cases hpc
  | 1, hi =>
    obtain rfl := Option.some.inj hi
    simp only [Instr.exec, Option.pure_def, Option.some.injEq] at hs
    subst hs
    by_cases he : (s.thread t).regs t0 = (s.thread t).regs a1
    · simp only [he, if_true]
      refine h.next hpl rfl ⟨hc.expected, hc.desired, fun _ => hc.address (by decide), by simp, by simp,
        by simp, by simp⟩ ?_ fun _ => hstore ((Printer.armed_calling hpl).2 (.inl ⟨rfl, he⟩))
      simp [Printer.HoldsAt]
    · simp only [he, if_false]
      have hb : b = false := by
        rw [← Bool.not_eq_true]
        rintro rfl
        exact he ((hc.read rfl rfl).trans hc.expected.symm)
      subst hb
      refine h.next hpl rfl ⟨hc.expected, hc.desired, by simp, by simp, by simp, by simp, by simp⟩ ?_ ?_
      · simp [Printer.HoldsAt]
      · simp
  | 2, hi =>
    obtain rfl := Option.some.inj hi
    by_cases hsc : s.shared.reservation = some ((s.thread t).regs a0) ∧ ok = true
    · simp only [Instr.exec, if_pos hsc, Option.pure_def, Option.some.injEq] at hs
      subst hs
      exact h.store hpl
    · simp only [Instr.exec, if_neg hsc, Option.pure_def, Option.some.injEq] at hs
      subst hs
      refine h.next hpl rfl ⟨?_, ?_, fun _ => ?_, by simp, by simp, by simp, by simp⟩ ?_ (by simp)
      · rw [hset a1 _ (by decide), hc.expected]
      · rw [hset a2 _ (by decide), hc.desired]
      · rw [hset a0 _ (by decide), hc.address (by decide)]
      · rw [hself]
        simp [Printer.HoldsAt]
  | 3, hi =>
    obtain rfl := Option.some.inj hi
    simp only [Instr.exec, Option.pure_def, Option.some.injEq] at hs
    subst hs
    have h0 : (s.thread t).regs 0 = 0 := (s.thread t).regs.zero
    by_cases he : (s.thread t).regs t0 = 0
    · simp only [he, h0, if_true]
      refine h.next hpl rfl ⟨hc.expected, hc.desired, by simp, by simp, by simp, by simp, by simp⟩ ?_
        (by simp)
      rw [he]
      simp [Printer.HoldsAt]
    · simp only [he, h0, if_false]
      refine h.next hpl rfl ⟨hc.expected, hc.desired, fun _ => hc.address (by decide), by simp, by simp,
        by simp, by simp⟩ ?_ (by simp)
      have he : (s.thread t).regs t0 ≠ 0#64 := he
      cases b <;> simp [Printer.HoldsAt, he]
  | 4, hi =>
    obtain rfl := Option.some.inj hi
    simp only [Instr.exec, Option.pure_def, Option.some.injEq] at hs
    subst hs
    refine h.next hpl rfl ⟨?_, ?_, by simp, fun _ => ?_, by simp, by simp, by simp⟩ ?_ (by simp)
    · rw [Regs.set_of_ne (by decide), hc.expected]
    · rw [Regs.set_of_ne (by decide), hc.desired]
    · exact Regs.set_self (i := a0) (by decide)
    · simp [Printer.HoldsAt]
  | 5, hi =>
    obtain rfl := Option.some.inj hi
    simp only [Instr.exec, hc.done rfl, ne_eq, not_true_eq_false, if_false] at hs
    have hwf : ∀ place, (∀ b pc, place ≠ .calling b pc) →
        ({ s.thread t with place } : Printer).Wf s.lockPrint := fun place hne b' pc he =>
      absurd he (hne b' pc)
    have harm : ∀ place, (∀ b pc, place ≠ .calling b pc) →
        ¬ ({ s.thread t with place } : Printer).Armed := fun place hne ⟨b', ha⟩ =>
      ha.elim (fun ha => hne _ _ ha.1) (hne _ _)
    cases b with
    | false =>
      obtain rfl := Option.some.inj hs
      refine h.move s.shared rfl (hwf _ (by simp)) ?_ fun ha =>
        absurd ha (harm _ (by simp))
      rw [hholds]
      simp [Printer.HoldsAt, Printer.Holds]
    | true =>
      obtain rfl := Option.some.inj hs
      refine h.move s.shared rfl (hwf _ (by simp)) ?_ fun ha =>
        absurd ha (harm _ (by simp))
      rw [hholds]
      simp [Printer.HoldsAt, Printer.Holds]
  | 6, hi =>
    obtain rfl := Option.some.inj hi
    simp only [Instr.exec, Option.pure_def, Option.some.injEq] at hs
    subst hs
    have hb : b = false := Bool.eq_false_iff.2 fun hb => absurd (hc.path hb) (by decide)
    subst hb
    refine h.next hpl rfl ⟨?_, ?_, by simp, by simp, fun _ => ?_, by simp, by simp⟩ ?_ (by simp)
    · rw [Regs.set_of_ne (by decide), hc.expected]
    · rw [Regs.set_of_ne (by decide), hc.desired]
    · exact Regs.set_self (i := a0) (by decide)
    · simp [Printer.HoldsAt]
  | 7, hi =>
    obtain rfl := Option.some.inj hi
    have hb : b = false := Bool.eq_false_iff.2 fun hb => absurd (hc.path hb) (by decide)
    subst hb
    have hone : (1 : Word) ≠ 0 := by decide
    simp only [Instr.exec, hc.fail rfl, ne_eq, hone, not_false_eq_true, if_true] at hs
    obtain rfl := Option.some.inj hs
    refine h.call _ ?_
    rw [hholds]
    simp [Printer.HoldsAt]
  | pc + 8, hi => cases hi

/-- A step keeps the lock's invariant. -/
theorem Inv.step (h : s.Inv) (hok : s.Ok e) (hs : s.step e = some s') : s'.Inv := by
  cases e with
  | printString t string =>
    simp only [Printing.step] at hs
    split at hs
    · obtain rfl := Option.some.inj hs
      refine h.call _ ?_
      simp [Printer.Holds, *]
    · cases hs
  | run t ok =>
    cases hpl : (s.thread t).place with
    | outside =>
      simp only [Printing.step, run, hpl] at hs
      cases hs
    | calling b pc => exact h.instr hok hpl hs
    | printing n =>
      have hholds : (s.thread t).Holds := by
        unfold Printer.Holds
        rw [hpl]
        trivial
      simp only [Printing.step, run, hpl] at hs
      split at hs
      · obtain rfl := Option.some.inj hs
        -- `out` is not in the invariant
        have hm : (s.set t { s.thread t with place := .printing (n + 1) }).Inv :=
          h.move s.shared rfl (fun b pc he => by cases he) (by simp [Printer.Holds, hpl])
            fun ⟨b, ha⟩ => by cases ha <;> simp_all
        exact ⟨hm.wf, hm.armed, hm.one, hm.unique, hm.taken, hm.free⟩
      · obtain rfl := Option.some.inj hs
        have hm := h.call (t := t) (b := true) (s.thread t) (by simp [hholds])
        exact ⟨hm.wf, hm.armed, hm.one, hm.unique, hm.taken, hm.free⟩

/-! ## The characters -/

/-- The whole strings, in the order in which they were printed. -/
def whole (s : Printing ι) : List Char := (s.strings.map Prod.snd).flatten

/-- The strings that the thread has printed. -/
def printed (s : Printing ι) (t : ι) : List (List Char) :=
  s.strings.filterMap fun x => if x.1 = t then some x.2 else none

/-- The string of a call that has not printed it to the end. -/
def pending (s : Printing ι) (t : ι) : List (List Char) :=
  match (s.thread t).place with
  | .calling false _ | .printing _ => [(s.thread t).string]
  | _ => []

def Event.string? (t : ι) : Event ι → Option (List Char)
  | .printString u string => if u = t then some string else none
  | .run _ _ => none

/-- The strings that the thread is asked to print. -/
def asked (t : ι) (es : List (Event ι)) : List (List Char) := es.filterMap (Event.string? t)

/-- What a step of the thread `t` in `printString` does. -/
inductive Moves (s : Printing ι) (t : ι) (s' : Printing ι) (p : Printer) : Prop
  | lock (pc : Nat) : (s.thread t).place = .calling false pc →
      (∃ pc', p.place = .calling false pc') ∨ p.place = .printing 0 →
      s'.out = s.out → s'.strings = s.strings → Moves s t s' p
  | unlock (pc : Nat) : (s.thread t).place = .calling true pc →
      (∃ pc', p.place = .calling true pc') ∨ p.place = .outside →
      s'.out = s.out → s'.strings = s.strings → Moves s t s' p
  | putc (n : Nat) (c : Char) : (s.thread t).place = .printing n →
      (s.thread t).string[n]? = some c → p.place = .printing (n + 1) →
      s'.out = s.out ++ [c] → s'.strings = s.strings → Moves s t s' p
  | stop (n : Nat) : (s.thread t).place = .printing n → (s.thread t).string[n]? = none →
      p.place = .calling true 0 →
      s'.out = s.out → s'.strings = s.strings ++ [(t, (s.thread t).string)] → Moves s t s' p

theorem run_moves {ok : Bool} (h : s.run t ok = some s') :
    ∃ p, s'.thread = update s.thread t p ∧ p.string = (s.thread t).string ∧ Moves s t s' p := by
  cases hpl : (s.thread t).place with
  | outside =>
    simp only [run, hpl] at h
    cases h
  | calling b pc =>
    simp only [run, hpl] at h
    obtain ⟨i, -, h⟩ := Option.bind_eq_some_iff.1 h
    cases b <;> split at h
    · obtain rfl := Option.some.inj h
      exact ⟨_, rfl, rfl, .lock pc hpl (.inl ⟨_, rfl⟩) rfl rfl⟩
    · split at h
      · obtain rfl := Option.some.inj h
        exact ⟨_, rfl, rfl, .lock pc hpl (.inl ⟨_, rfl⟩) rfl rfl⟩
      · obtain rfl := Option.some.inj h
        exact ⟨_, rfl, rfl, .lock pc hpl (.inr rfl) rfl rfl⟩
    · obtain rfl := Option.some.inj h
      exact ⟨_, rfl, rfl, .unlock pc hpl (.inl ⟨_, rfl⟩) rfl rfl⟩
    · split at h
      · obtain rfl := Option.some.inj h
        exact ⟨_, rfl, rfl, .unlock pc hpl (.inl ⟨_, rfl⟩) rfl rfl⟩
      · obtain rfl := Option.some.inj h
        exact ⟨_, rfl, rfl, .unlock pc hpl (.inr rfl) rfl rfl⟩
  | printing n =>
    simp only [run, hpl] at h
    split at h
    · obtain rfl := Option.some.inj h
      exact ⟨_, rfl, rfl, .putc n _ hpl ‹_› rfl rfl rfl⟩
    · obtain rfl := Option.some.inj h
      exact ⟨_, rfl, rfl, .stop n hpl ‹_› rfl rfl rfl⟩

/-- The output is a sequence of whole strings and the beginning of the string being printed. -/
structure Output (s : Printing ι) : Prop where
  printing : ∀ t n, (s.thread t).place = .printing n →
    s.out = s.whole ++ (s.thread t).string.take n
  idle : (∀ t n, (s.thread t).place ≠ .printing n) → s.out = s.whole

omit [DecidableEq ι] in
theorem holds_printing {n : Nat} (h : (s.thread t).place = .printing n) : (s.thread t).Holds := by
  unfold Printer.Holds
  rw [h]
  trivial

theorem Output.run {ok : Bool} (ho : s.Output) (h : s.Inv) (h' : s'.Inv)
    (hs : s.run t ok = some s') : s'.Output := by
  obtain ⟨p, hth, hstr, hm⟩ := run_moves hs
  have hself : s'.thread t = p := by rw [hth, update_self]
  have hother : ∀ u, u ≠ t → s'.thread u = s.thread u := fun u hu => by rw [hth, update_of_ne hu]
  -- the loop of another thread excludes that of `t`, before the step and after it
  have hexcl : ∀ u n, u ≠ t → (s'.thread u).place = .printing n →
      ¬ (s.thread t).Holds ∧ ¬ p.Holds := fun u n hu hn => by
    have hu' := holds_printing hn
    refine ⟨fun ht => hu (h.unique u t ?_ ht), fun ht => hu (h'.unique u t hu' ?_)⟩
    · rwa [← hother u hu]
    · rwa [hself]
  cases hm with
  | lock pc hpl hp hout hstrings =>
    have hw : s'.whole = s.whole := by rw [whole, hstrings, whole]
    have hidle : (∀ u n, u ≠ t → (s'.thread u).place ≠ .printing n) → s'.out = s'.whole :=
      fun hne => by
        rw [hout, hw]
        refine ho.idle fun u n hn => ?_
        by_cases hu : u = t
        · rw [hu, hpl] at hn
          cases hn
        · exact hne u n hu (by rwa [hother u hu])
    refine ⟨fun u n hn => ?_, fun hne => hidle fun u n _ => hne u n⟩
    by_cases hu : u = t
    · subst hu
      have hn' := hn
      rw [hself] at hn'
      obtain ⟨pc', hp⟩ | hp := hp
      · rw [hp] at hn'
        cases hn'
      · rw [hp] at hn'
        obtain rfl := Place.printing.inj hn'
        rw [List.take_zero, List.append_nil]
        exact hidle fun w k hw hk => (hexcl w k hw hk).2 (hself ▸ holds_printing hn)
    · rw [hother u hu] at hn ⊢
      rw [hout, hw, ho.printing u n hn]
  | unlock pc hpl hp hout hstrings =>
    have hw : s'.whole = s.whole := by rw [whole, hstrings, whole]
    have hne' : ∀ n, (s'.thread t).place ≠ .printing n := fun n hn => by
      rw [hself] at hn
      obtain ⟨pc', hp⟩ | hp := hp <;> rw [hp] at hn <;> cases hn
    refine ⟨fun u n hn => ?_, fun hne => ?_⟩
    · have hu : u ≠ t := fun hu => hne' n (hu ▸ hn)
      rw [hother u hu] at hn ⊢
      rw [hout, hw, ho.printing u n hn]
    · rw [hout, hw]
      refine ho.idle fun u n hn => ?_
      by_cases hu : u = t
      · rw [hu, hpl] at hn
        cases hn
      · exact hne u n (by rwa [hother u hu])
  | putc k c hpl hc hp hout hstrings =>
    have hw : s'.whole = s.whole := by rw [whole, hstrings, whole]
    refine ⟨fun u n hn => ?_, fun hne => absurd (by rw [hself, hp]) (hne t (k + 1))⟩
    by_cases hu : u = t
    · subst hu
      have hn' := hn
      rw [hself, hp] at hn'
      obtain rfl := Place.printing.inj hn'
      rw [hout, hw, ho.printing u k hpl, hself, hstr, List.take_add_one, hc, List.append_assoc]
      rfl
    · exact absurd (holds_printing hpl) (hexcl u n hu hn).1
  | stop k hpl hc hp hout hstrings =>
    refine ⟨fun u n hn => ?_, fun hne => ?_⟩
    · by_cases hu : u = t
      · rw [hu, hself, hp] at hn
        cases hn
      · exact absurd (holds_printing hpl) (hexcl u n hu hn).1
    · rw [hout, ho.printing t k hpl, List.take_of_length_le (List.getElem?_eq_none_iff.1 hc), whole,
        whole, hstrings]
      simp

theorem Output.step (ho : s.Output) (h : s.Inv) (h' : s'.Inv) (hs : s.step e = some s') :
    s'.Output := by
  cases e with
  | run t ok => exact ho.run h h' hs
  | printString t string =>
    simp only [Printing.step] at hs
    split at hs
    · rename_i hpl
      obtain rfl := Option.some.inj hs
      have hpr : ∀ u n, ((s.set t (s.call false { s.thread t with string })).thread u).place =
          .printing n → u ≠ t ∧ (s.thread u).place = .printing n := fun u n hn => by
        by_cases hu : u = t
        · subst hu
          simp only [set, update_self, call] at hn
          cases hn
        · simp only [set, update_of_ne hu] at hn
          exact ⟨hu, hn⟩
      refine ⟨fun u n hn => ?_, fun hne => ho.idle fun u n hn => hne u n ?_⟩
      · obtain ⟨hu, hn⟩ := hpr u n hn
        simp only [set, update_of_ne hu]
        exact ho.printing u n hn
      · have hu : u ≠ t := by
          rintro rfl
          rw [hpl] at hn
          cases hn
        simpa only [set, update_of_ne hu] using hn
    · cases hs

/-- Each string asked for is printed or pending, in the thread's order. -/
theorem step_asked (hs : s.step e = some s') (u : ι) :
    s'.printed u ++ s'.pending u = s.printed u ++ s.pending u ++ asked u [e] := by
  cases e with
  | printString t string =>
    simp only [Printing.step] at hs
    split at hs
    · rename_i hpl
      obtain rfl := Option.some.inj hs
      by_cases hu : u = t
      · subst hu
        simp [printed, pending, asked, Event.string?, set, call, hpl]
      · simp [printed, pending, asked, Event.string?, set, update_of_ne hu, Ne.symm hu]
    · cases hs
  | run t ok =>
    obtain ⟨p, hth, hstr, hm⟩ := run_moves hs
    by_cases hu : u = t
    · subst hu
      cases hm with
      | lock pc hpl hp hout hstrings =>
        obtain ⟨pc', hp⟩ | hp := hp <;>
          simp [printed, pending, asked, Event.string?, hth, hstrings, hpl, hp, hstr]
      | unlock pc hpl hp hout hstrings =>
        obtain ⟨pc', hp⟩ | hp := hp <;>
          simp [printed, pending, asked, Event.string?, hth, hstrings, hpl, hp]
      | putc n c hpl hc hp hout hstrings =>
        simp [printed, pending, asked, Event.string?, hth, hstrings, hpl, hp, hstr]
      | stop n hpl hc hp hout hstrings =>
        simp [printed, pending, asked, Event.string?, hth, hstrings, hpl, hp]
    · have hpend : s'.pending u = s.pending u := by
        simp only [pending, hth, update_of_ne hu]
      have hpr : s'.printed u = s.printed u := by
        cases hm with
        | lock _ _ _ _ hstrings | unlock _ _ _ _ hstrings | putc _ _ _ _ _ _ hstrings =>
          simp only [printed, hstrings]
        | stop _ _ _ _ _ hstrings => simp [printed, hstrings, Ne.symm hu]
      simp [hpend, hpr, asked, Event.string?]

/-- No thread prints, and the lock is free. -/
structure Init (s : Printing ι) : Prop where
  outside : ∀ t, (s.thread t).place = .outside
  free : s.value = 0
  out : s.out = []
  strings : s.strings = []

omit [DecidableEq ι] in
theorem Init.inv (h : s.Init) : s.Inv := by
  have hh : ∀ t, ¬ (s.thread t).Holds := fun t ht => by
    unfold Printer.Holds at ht
    rwa [h.outside t] at ht
  have ha : ∀ t, ¬ (s.thread t).Armed := fun t ⟨b, hb⟩ => by
    rw [h.outside t] at hb
    obtain ⟨hb, -⟩ | hb := hb <;> cases hb
  refine ⟨fun t b pc hpl => ?_, fun t ht => absurd ht (ha t), fun t _ ht => absurd ht (ha t),
    fun t _ ht => absurd ht (hh t), fun ⟨t, ht⟩ => absurd ht (hh t), fun _ => h.free⟩
  rw [h.outside t] at hpl
  cases hpl

omit [DecidableEq ι] in
theorem Init.output (h : s.Init) : s.Output := by
  refine ⟨fun t n hn => ?_, fun _ => ?_⟩
  · rw [h.outside t] at hn
    cases hn
  · rw [h.out, whole, h.strings]
    rfl

theorem run_asked {es : List (Event ι)} (h : Run Ok step s es s') (t : ι) :
    s'.printed t ++ s'.pending t = s.printed t ++ s.pending t ++ asked t es := by
  induction h with
  | nil => simp [asked]
  | cons _ hs _ ih =>
    rw [ih, step_asked hs, List.append_assoc, asked, asked, ← List.filterMap_append]
    rfl

/-- At most one thread has the lock; the output is a sequence of whole strings and what the loop of
one thread has printed; each string asked for is printed once, in the thread's order. -/
theorem printString_atomic {es : List (Event ι)} (h0 : s.Init) (h : Run Ok step s es s') :
    (∀ t u, (s'.thread t).Holds → (s'.thread u).Holds → t = u) ∧ s'.Output ∧
      ∀ t, s'.printed t ++ s'.pending t = asked t es := by
  have hinv : s'.Inv ∧ s'.Output :=
    h.inv (fun s => s.Inv ∧ s.Output) (fun s e s' hi hok hs =>
      ⟨hi.1.step hok hs, hi.2.step hi.1 (hi.1.step hok hs) hs⟩) ⟨h0.inv, h0.output⟩
  refine ⟨hinv.1.unique, hinv.2, fun t => ?_⟩
  rw [run_asked h t]
  simp [printed, pending, h0.strings, h0.outside]

instance (p : Printer) : Decidable p.Loads := inferInstanceAs (Decidable (∃ _, _))

instance (p : Printer) : Decidable p.Armed := inferInstanceAs (Decidable (∃ _, _ ∧ _ ∨ _))

instance [Fintype ι] (s : Printing ι) : ∀ e, Decidable (s.Ok e)
  | .printString _ _ => inferInstanceAs (Decidable True)
  | .run t _ => inferInstanceAs (Decidable ((s.thread t).Loads → ∀ u, u ≠ t → ¬ (s.thread u).Armed))

/-- Three threads, and the lock at `0x1000`. -/
def init : Printing (Fin 3) where
  lockPrint := 0x1000
  shared := ⟨fun _ => 0, none⟩
  thread _ := ⟨.outside, default, []⟩
  out := []
  strings := []

/-- The thread 1 comes to the lock while the thread 0 prints, spins, and prints after it. -/
def spins : List (Event (Fin 3)) :=
  [.printString 0 ['a', 'b'], .printString 1 ['c']] ++
    (List.replicate 7 (.run 0 true) ++ List.replicate 6 (.run 1 true)) ++
    (List.replicate 8 (.run 0 true) ++ List.replicate 16 (.run 1 true))

theorem printString_atomic_three : ∃ s', Run Ok step init spins s' ∧
    s'.out = ['a', 'b', 'c'] ∧ s'.Output ∧ ∀ t, s'.printed t ++ s'.pending t = asked t spins := by
  have hout : (Runs.exec Ok step init spins).map (fun s => s.out) = some ['a', 'b', 'c'] := by
    decide +kernel
  obtain ⟨s', hs, hs'⟩ := Option.map_eq_some_iff.1 hout
  have hrun := Run.of_exec hs
  exact ⟨s', hrun, hs', (printString_atomic ⟨fun _ => rfl, by decide +kernel, rfl, rfl⟩ hrun).2⟩

/-- The reservation of the thread 2 lets the thread 0 take the lock that the thread 1 has. -/
def steals : List (Event (Fin 3)) :=
  [.printString 0 ['a', 'b'], .printString 1 ['c'], .printString 2 ['d']] ++
    (List.replicate 2 (.run 0 true) ++ List.replicate 6 (.run 1 true)) ++ [.run 2 true] ++
    (List.replicate 5 (.run 0 true) ++ [.run 1 true] ++ [.run 0 true])

example : (steals.foldlM step init).map (fun s => s.out) = some ['a', 'c', 'b'] := by decide +kernel

end Printing

end SlabKernel
