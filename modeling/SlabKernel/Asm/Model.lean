import SlabKernel.Lib.Rv64
import SlabKernel.Lib.Run

/-!
# Traps and context switches (`strap.S`, `registerUtility.S`, `contextSwitch.S`, `riscv.cpp`)

The assembly routines are lists of instructions on the registers and the byte memory of the hart.
`Hart.step` executes them; between them runs compiled code, of the kernel or of a thread, as one
event `code` that leaves any registers behind and any memory but the saved one (`Hart.Ok`). For
each thread the machine records the frames on its stack that are still to be read back, the
innermost first: those of `supervisorTrap` and those of `pushRegisters`.

The compiler keeps the caller's stack pointer in `s0` (`-fno-omit-frame-pointer`), so in
`trapHandler` it is the address of the frame of `supervisorTrap`.
-/

namespace SlabKernel

open Function (update)
open Rv64

/-! ## The routines -/

namespace Riscv

/-- The registers `is` of the loops `.irp index, …`. -/
abbrev allRegs : List Reg := List.finRange 32

abbrev upperRegs : List Reg := (List.finRange 32).drop 3

/-- `supervisorTrap` up to the call of `trapHandler`. -/
def supervisorTrap : List Op := .addi sp sp (-256) :: saves allRegs

/-- `supervisorTrap` from the return of `trapHandler` to `sret`. -/
def supervisorTrapEnd : List Op := restores allRegs ++ [.addi sp sp 256]

/-- `pushRegisters` and `popRegisters`, up to `ret`. -/
def pushRegisters : List Op := .addi sp sp (-256) :: saves upperRegs

def popRegisters : List Op := restores upperRegs ++ [.addi sp sp 256]

/-- The macros `W_RET` and `LOAD_STACK`. -/
def W_RET : Op := .sd a0 80 s0

def LOAD_STACK : Op := .ld a4 112 s0

end Riscv

/-- `TCB::contextSwitch`, up to `ret`. -/
def TCB.contextSwitch : List Op := [.sd ra 0 a0, .sd sp 8 a0, .ld ra 0 a1, .ld sp 8 a1]

/-! ## The hart -/

/-- The bits `SSTATUS_SPP`, `SSTATUS_SPIE` and `SSTATUS_SIE` of `sstatus`. -/
structure Status where
  spp : Bool
  spie : Bool
  sie : Bool

/-- What decides where the hart executes, and how. -/
structure Control where
  pc : Word
  supervisor : Bool
  sepc : Word
  sstatus : Status

namespace Control

/-- The hart takes a trap; `stvec` is the address of `supervisorTrap`. -/
def trap (c : Control) (stvec : Word) : Control where
  pc := stvec
  supervisor := true
  sepc := c.pc
  sstatus := ⟨c.supervisor, c.sstatus.sie, false⟩

/-- The instruction `sret`. -/
def sret (c : Control) : Control where
  pc := c.sepc
  supervisor := c.sstatus.spp
  sepc := c.sepc
  sstatus := ⟨false, true, c.sstatus.spie⟩

/-- The locals `sepc` and `sstatus` of `trapHandler`, in the branches that have them. -/
def locals (c : Control) (scause : Word) : Option (Word × Status) :=
  if scause = 0x09 ∨ scause = 0x08 then some (c.sepc + 4, c.sstatus)
  else if scause = 0x8000000000000001 ∨ scause = 0x8000000000000009 then some (c.sepc, c.sstatus)
  else none

/-- The end of these branches: `w_sstatus(sstatus)` and `w_sepc(sepc)`. -/
def restore (c : Control) : Option (Word × Status) → Control
  | some (sepc, sstatus) => { c with sepc, sstatus }
  | none => c

/-- `sppUser` and `sppKernel`. -/
def spp (c : Control) (fn : Word) (user : Bool) : Control :=
  { c with sepc := fn, sstatus := { c.sstatus with spp := !user } }.sret

end Control

/-! ## Frames -/

/-- A frame of `supervisorTrap`, with the locals of its `trapHandler`, or one of `pushRegisters`. -/
inductive Kind
  | trap (locals : Option (Word × Status))
  | yield

/-- The registers in a frame. -/
def Kind.regs : Kind → List Reg
  | .trap _ => Riscv.allRegs
  | .yield => Riscv.upperRegs

structure RegFrame where
  base : Word
  kind : Kind

/-- `&thread->context`. -/
def TCB.context (thread : Word) : Word := thread + 24

/-! ## The machine -/

/-- The hart, its memory and the threads; a thread is the address of its TCB. -/
structure Hart where
  core : Core
  control : Control
  stvec : Word
  running : Word
  threads : List Word
  frames : Word → List RegFrame

inductive HartEvent
  /-- Compiled code, which ends at `pc` with these registers, this memory and this `SIE`. -/
  | code (regs : Regs) (mem : Mem) (pc : Word) (sie : Bool)
  | trap (scause : Word)
  | wRet
  | loadStack
  /-- `trapHandler` returns. -/
  | trapEnd
  | push
  | pop
  | contextSwitch (thread : Word)
  /-- `createThread` sets the context. -/
  | create (thread ra sp : Word)
  | destroy (thread : Word)
  | spp (fn arg : Word) (user : Bool)

namespace Hart

/-- `ret`. -/
def ret (h : Hart) : Hart := { h with control := { h.control with pc := h.core.regs ra } }

def setFrames (h : Hart) (frames : List RegFrame) : Hart :=
  { h with frames := update h.frames h.running frames }

/-- A frame of the running thread at its stack pointer. -/
def enter (h : Hart) (kind : Kind) : Hart :=
  h.setFrames (⟨h.core.regs sp, kind⟩ :: h.frames h.running)

def step (h : Hart) : HartEvent → Option Hart
  | .code regs mem pc sie => some { h with
      core := ⟨regs, mem⟩
      control := { h.control with pc, sstatus := { h.control.sstatus with sie } } }
  | .trap scause =>
    let control := h.control.trap h.stvec
    some ({ h with core := execs h.core Riscv.supervisorTrap, control }.enter
      (.trap (control.locals scause)))
  | .wRet => some { h with core := exec h.core Riscv.W_RET }
  | .loadStack => some { h with core := exec h.core Riscv.LOAD_STACK }
  | .trapEnd =>
    match h.frames h.running with
    | ⟨_, .trap locals⟩ :: frames => some ({ h with
        core := execs h.core Riscv.supervisorTrapEnd
        control := (h.control.restore locals).sret }.setFrames frames)
    | _ => none
  | .push => some ({ h with core := execs h.core Riscv.pushRegisters }.enter .yield).ret
  | .pop =>
    match h.frames h.running with
    | ⟨_, .yield⟩ :: frames =>
      some ({ h with core := execs h.core Riscv.popRegisters }.setFrames frames).ret
    | _ => none
  | .contextSwitch thread =>
    let regs := (h.core.regs.set a0 (TCB.context h.running)).set a1 (TCB.context thread)
    some { h with core := execs { h.core with regs } TCB.contextSwitch, running := thread }.ret
  | .create thread ra sp => some { h with
      core := { h.core with
        mem := (h.core.mem.sd (TCB.context thread) ra).sd (TCB.context thread + 8) sp }
      threads := thread :: h.threads
      frames := update h.frames thread [] }
  | .destroy thread => some { h with
      threads := h.threads.erase thread
      frames := update h.frames thread [] }
  | .spp fn arg user => some { h with
      core := { h.core with regs := h.core.regs.set a0 arg }
      control := h.control.spp fn user }

/-! ## The environment -/

/-- The memory of contexts and frames. -/
def saved (h : Hart) : Set Word :=
  {x | ∃ t ∈ h.threads, x ∈ range (TCB.context t) 16 ∨ ∃ f ∈ h.frames t, x ∈ range f.base 256}

/-- The room for a frame below the stack pointer is not in use. -/
def Room (h : Hart) : Prop := Disjoint (range (h.core.regs sp - 256) 256) h.saved

/-- The innermost frame of the running thread. -/
def top (h : Hart) : Option RegFrame := (h.frames h.running).head?

/-- Compiled code writes to no saved memory and keeps to the calling convention: the stack pointer
is that of the frame when `trapHandler` returns and when `popRegisters` is called, and `s0` is in
`trapHandler`. Stacks have room for a frame, and contexts are those of live threads. -/
def Ok (h : Hart) : HartEvent → Prop
  | .code _ mem _ _ => ∀ x ∈ h.saved, mem x = h.core.mem x
  | .trap _ => h.Room
  | .wRet => ∃ f locals, h.top = some f ∧ f.kind = .trap locals ∧ h.core.regs s0 = f.base
  | .loadStack => ∃ f locals, h.top = some f ∧ f.kind = .trap locals ∧ h.core.regs s0 = f.base
  | .trapEnd => ∃ f, h.top = some f ∧ h.core.regs sp = f.base
  | .push => h.Room
  | .pop => ∃ f, h.top = some f ∧ h.core.regs sp = f.base
  | .contextSwitch thread => thread ∈ h.threads
  | .create thread _ _ => thread ∉ h.threads ∧ Disjoint (range (TCB.context thread) 16) h.saved
  | .destroy thread => thread ≠ h.running
  | .spp _ _ _ => True

end Hart

end SlabKernel
