import Mathlib.Algebra.Group.Nat.Defs
import Mathlib.Data.Set.BooleanAlgebra
import Mathlib.Logic.Function.Basic
import Mathlib.Order.CompletePartialOrder

/-!
# RISC-V instructions

Registers, byte memory and the instructions of RV64 that do not jump (`Op`), with `execs` for a
straight piece of code. `saves` and `restores` are the code that keeps registers in a frame at the
stack pointer: what the first writes (`Kept`), the second reads back (`Kept.restores`), provided
that nobody writes to the frame in between (`Kept.congr`).
-/

namespace Rv64

open Function (update update_self update_of_ne)

abbrev Word := BitVec 64

/-! ## Memory -/

abbrev Mem := Word → BitVec 8

/-- The `n` addresses from `a` on. -/
def range (a : Word) (n : Nat) : Set Word := {x | (x - a).toNat < n}

theorem mem_range {a x : Word} {n : Nat} : x ∈ range a n ↔ (x - a).toNat < n := Iff.rfl

namespace Mem

/-- The number in the `n` bytes from `a` on, the lowest first. -/
def load (m : Mem) (a : Word) : Nat → Nat
  | 0 => 0
  | n + 1 => (m a).toNat + 256 * load m (a + 1) n

/-- The lowest `n` bytes of `v` at `a`. -/
def store (m : Mem) (a : Word) (n v : Nat) : Mem := fun x =>
  if (x - a).toNat < n then BitVec.ofNat 8 (v / 256 ^ (x - a).toNat) else m x

def ld (m : Mem) (a : Word) : Word := BitVec.ofNat 64 (m.load a 8)

def sd (m : Mem) (a v : Word) : Mem := m.store a 8 v.toNat

/-- A word of 32 bits, its sign extended. -/
def lw (m : Mem) (a : Word) : Word := (BitVec.ofNat 32 (m.load a 4)).signExtend 64

def sw (m : Mem) (a v : Word) : Mem := m.store a 4 v.toNat

variable {m m' : Mem} {a b v x : Word} {n k j : Nat}

theorem store_of_notMem (h : x ∉ range a n) : m.store a n k x = m x := if_neg h

theorem load_congr (hn : n ≤ 2 ^ 64) (h : ∀ x ∈ range a n, m' x = m x) :
    m'.load a n = m.load a n := by
  induction n generalizing a with
  | zero => rfl
  | succ n ih =>
    unfold load
    rw [h a ?_, ih (by omega) fun x hx => h x ?_]
    · rw [mem_range] at hx ⊢
      bv_omega
    · rw [mem_range, BitVec.sub_self]
      exact Nat.succ_pos n

/-- A part of what was stored is read back. -/
theorem load_store (h : k + j ≤ n) (hn : n ≤ 2 ^ 64) :
    (m.store a n v.toNat).load (a + BitVec.ofNat 64 k) j = v.toNat / 256 ^ k % 256 ^ j := by
  induction j generalizing k with
  | zero => rw [load, Nat.pow_zero, Nat.mod_one]
  | succ j ih =>
    have hk : (a + BitVec.ofNat 64 k - a).toNat = k := by
      rw [BitVec.add_comm, BitVec.add_sub_cancel, BitVec.toNat_ofNat, Nat.mod_eq_of_lt (by omega)]
    have hnext : a + BitVec.ofNat 64 k + 1 = a + BitVec.ofNat 64 (k + 1) := by
      rw [BitVec.add_assoc, BitVec.ofNat_add]
      rfl
    unfold load
    rw [hnext, ih (by omega), store, hk, if_pos (by omega), BitVec.toNat_ofNat,
      show (2 : Nat) ^ 8 = 256 by decide, Nat.pow_succ, ← Nat.div_div_eq_div_mul, Nat.pow_succ',
      Nat.mod_mul]

theorem ld_congr (h : ∀ x ∈ range a 8, m' x = m x) : m'.ld a = m.ld a := by
  unfold ld
  rw [load_congr (by decide) h]

theorem ld_sd : (m.sd a v).ld a = v := by
  have h := load_store (m := m) (a := a) (v := v) (k := 0) (j := 8) (n := 8) (by decide) (by decide)
  rw [BitVec.add_zero] at h
  unfold ld sd
  rw [h, Nat.pow_zero, Nat.div_one, Nat.mod_eq_of_lt (lt_of_lt_of_le v.isLt (by decide)),
    BitVec.ofNat_toNat, BitVec.setWidth_eq]

theorem sd_of_notMem (h : x ∉ range a 8) : m.sd a v x = m x := store_of_notMem h

theorem lw_sw_of_lt (h : v.toNat < 2 ^ 31) : (m.sw a v).lw a = v := by
  have hl := load_store (m := m) (a := a) (v := v) (k := 0) (j := 4) (n := 4) (by decide) (by decide)
  rw [BitVec.add_zero, Nat.pow_zero, Nat.div_one, Nat.mod_eq_of_lt (by omega)] at hl
  unfold lw sw
  rw [hl]
  apply BitVec.eq_of_toNat_eq
  have hmsb : (BitVec.ofNat 32 v.toNat).msb = false := by
    rw [BitVec.msb_eq_false_iff_two_mul_lt, BitVec.toNat_ofNat]
    omega
  rw [BitVec.toNat_signExtend, hmsb, BitVec.toNat_setWidth, BitVec.toNat_ofNat]
  simp only [Bool.false_eq_true, if_false, Nat.add_zero]
  omega

theorem ld_sd_of_disjoint (h : Disjoint (range b 8) (range a 8)) : (m.sd a v).ld b = m.ld b :=
  ld_congr fun _ hx => sd_of_notMem (Set.disjoint_left.1 h hx)

end Mem

/-! ## Registers -/

abbrev Reg := Fin 32

abbrev x0 : Reg := 0
abbrev ra : Reg := 1
abbrev sp : Reg := 2
abbrev t0 : Reg := 5
abbrev s0 : Reg := 8
abbrev a0 : Reg := 10
abbrev a1 : Reg := 11
abbrev a2 : Reg := 12
abbrev a4 : Reg := 14

/-- The registers; the first one is always 0. -/
@[ext] structure Regs where
  val : Reg → Word
  zero : val 0 = 0

namespace Regs

instance : CoeFun Regs fun _ => Reg → Word := ⟨val⟩

instance : Inhabited Regs := ⟨fun _ => 0, rfl⟩

def set (r : Regs) (i : Reg) (v : Word) : Regs :=
  if h : i = 0 then r else ⟨update r.val i v, by rw [update_of_ne (Ne.symm h), r.zero]⟩

variable {r : Regs} {i j : Reg} {v : Word}

theorem set_self (h : i ≠ 0) : r.set i v i = v := by
  unfold set
  rw [dif_neg h]
  exact update_self ..

theorem set_of_ne (h : j ≠ i) : r.set i v j = r j := by
  unfold set
  split
  · rfl
  · exact update_of_ne h ..

theorem ext_of_ne {r' : Regs} (h : ∀ i ≠ 0, r i = r' i) : r = r' := by
  ext i
  by_cases h0 : i = 0
  · rw [h0, r.zero, r'.zero]
  · rw [h i h0]

theorem set_eq_self (h : r i = v) : r.set i v = r := ext_of_ne fun j h0 => by
  by_cases hj : j = i
  · rw [hj, set_self (hj ▸ h0), h]
  · exact set_of_ne hj

end Regs

/-! ## Instructions -/

/-- The instructions that do not jump. -/
inductive Op
  | addi (rd rs : Reg) (imm : Int)
  | ld (rd : Reg) (imm : Int) (rs : Reg)
  | sd (rs₂ : Reg) (imm : Int) (rs₁ : Reg)

/-- What instructions work on. -/
@[ext] structure Core where
  regs : Regs
  mem : Mem

def exec (c : Core) : Op → Core
  | .addi rd rs imm => { c with regs := c.regs.set rd (c.regs rs + BitVec.ofInt 64 imm) }
  | .ld rd imm rs => { c with regs := c.regs.set rd (c.mem.ld (c.regs rs + BitVec.ofInt 64 imm)) }
  | .sd rs₂ imm rs₁ =>
    { c with mem := c.mem.sd (c.regs rs₁ + BitVec.ofInt 64 imm) (c.regs rs₂) }

def execs (c : Core) (ops : List Op) : Core := ops.foldl exec c

theorem execs_append (c : Core) (ops ops' : List Op) :
    execs c (ops ++ ops') = execs (execs c ops) ops' := List.foldl_append

/-! ## Jumps and reservations -/

/-- What harts share: the memory, and the address that the last `lr.w` has reserved. -/
structure Shared where
  mem : Mem
  reservation : Option Word

/-- Instructions of a routine, a jump target being the index of an instruction. -/
inductive Instr
  | li (rd : Reg) (imm : Int)
  | lrw (rd rs : Reg)
  | scw (rd rs₂ rs₁ : Reg)
  | bne (rs₁ rs₂ : Reg) (target : Nat)
  | jr (rs : Reg)

/-- The instruction at `pc`: the registers, what is shared, and the next instruction, none after the
routine. A store conditional may fail for reasons of its own (`ok`). -/
def Instr.exec (pc : Nat) (r : Regs) (s : Shared) (ok : Bool) : Instr → Regs × Shared × Option Nat
  | .li rd imm => (r.set rd (BitVec.ofInt 64 imm), s, some (pc + 1))
  | .lrw rd rs => (r.set rd (s.mem.lw (r rs)), { s with reservation := some (r rs) }, some (pc + 1))
  | .scw rd rs₂ rs₁ =>
    if s.reservation = some (r rs₁) ∧ ok = true then
      (r.set rd 0, ⟨s.mem.sw (r rs₁) (r rs₂), none⟩, some (pc + 1))
    else (r.set rd 1, { s with reservation := none }, some (pc + 1))
  | .bne rs₁ rs₂ target => (r, s, some (if r rs₁ = r rs₂ then pc + 1 else target))
  | .jr _ => (r, s, none)

/-! ## Frames of registers -/

/-- The registers `is` at the stack pointer, each in the slot of its number. -/
def saves (is : List Reg) : List Op := is.map fun i => .sd i (8 * i.val) sp

def restores (is : List Reg) : List Op := is.map fun i => .ld i (8 * i.val) sp

/-- The slot of a register in the frame at `a`. -/
def slot (a : Word) (i : Reg) : Word := a + BitVec.ofInt 64 (8 * i.val)

/-- The frame at `a` has the values `f` of the registers `is`. -/
def Kept (m : Mem) (a : Word) (is : List Reg) (f : Reg → Word) : Prop :=
  ∀ i ∈ is, m.ld (slot a i) = f i

variable {m m' : Mem} {a x : Word} {is : List Reg} {f g : Reg → Word} {i j : Reg} {c : Core}

theorem slot_eq (a : Word) (i : Reg) : slot a i = a + BitVec.ofNat 64 (8 * i.val) := by
  unfold slot
  congr 1

theorem mem_slot : x ∈ range (slot a i) 8 ↔
    8 * i.val ≤ (x - a).toNat ∧ (x - a).toNat < 8 * i.val + 8 := by
  have hi := i.isLt
  rw [slot_eq, mem_range]
  bv_omega

/-- Slots lie in the frame. -/
theorem slot_subset (a : Word) (i : Reg) : range (slot a i) 8 ⊆ range a 256 := fun x hx => by
  have hi := i.isLt
  rw [mem_slot] at hx
  rw [mem_range]
  omega

theorem slot_disjoint (h : i ≠ j) : Disjoint (range (slot a i) 8) (range (slot a j) 8) := by
  rw [Set.disjoint_left]
  intro x hi hj
  rw [mem_slot] at hi hj
  exact h (Fin.ext (by omega))

/-- A frame that nobody writes to. -/
theorem Kept.congr (h : Kept m a is f) (hm : ∀ x ∈ range a 256, m' x = m x) : Kept m' a is f :=
  fun i hi => by
    rw [Mem.ld_congr fun x hx => hm x (slot_subset a i hx), h i hi]

/-- Another value in one slot. -/
theorem Kept.sd (h : Kept m a is f) (i : Reg) (v : Word) :
    Kept (m.sd (slot a i) v) a is (update f i v) := fun j hj => by
  by_cases hji : j = i
  · subst hji
    rw [Mem.ld_sd, update_self]
  · rw [Mem.ld_sd_of_disjoint (slot_disjoint hji), h j hj, update_of_ne hji]

theorem sd_of_notMem_frame (h : x ∉ range a 256) (i : Reg) (v : Word) :
    m.sd (slot a i) v x = m x :=
  Mem.sd_of_notMem fun hx => h (slot_subset a i hx)

/-- Saving keeps the registers in the frame; it changes no other slot and nothing outside of it. -/
theorem execs_saves (c : Core) (is : List Reg) :
    ∃ m, execs c (saves is) = { c with mem := m } ∧ Kept m (c.regs sp) is c.regs ∧
      (∀ i ∉ is, m.ld (slot (c.regs sp) i) = c.mem.ld (slot (c.regs sp) i)) ∧
      ∀ x ∉ range (c.regs sp) 256, m x = c.mem x := by
  induction is generalizing c with
  | nil =>
    exact ⟨c.mem, rfl, fun i hi => absurd hi List.not_mem_nil, fun i _ => rfl, fun x _ => rfl⟩
  | cons i is ih =>
    obtain ⟨m, he, hk, hs, hx⟩ := ih { c with mem := c.mem.sd (slot (c.regs sp) i) (c.regs i) }
    refine ⟨m, he, fun j hj => ?_, fun j hj => ?_, fun x hx' => ?_⟩
    · by_cases hj' : j ∈ is
      · exact hk j hj'
      · obtain rfl := (List.mem_cons.1 hj).resolve_right hj'
        rw [hs j hj', Mem.ld_sd]
    · rw [List.mem_cons, not_or] at hj
      rw [hs j hj.2, Mem.ld_sd_of_disjoint (slot_disjoint hj.1)]
    · rw [hx x hx']
      exact sd_of_notMem_frame hx' i _

/-- Restoring reads the frame back, if it holds the stack pointer's own value or none. -/
theorem execs_restores (hk : Kept c.mem (c.regs sp) is f) (hsp : sp ∈ is → f sp = c.regs sp) :
    ∃ r, execs c (restores is) = { c with regs := r } ∧ (∀ i ∈ is, i ≠ 0 → r i = f i) ∧
      ∀ i ∉ is, r i = c.regs i := by
  induction is generalizing c with
  | nil => exact ⟨c.regs, rfl, fun i hi => absurd hi List.not_mem_nil, fun i _ => rfl⟩
  | cons i is ih =>
    have hi : c.mem.ld (slot (c.regs sp) i) = f i := hk i (.head _)
    have hsame : c.regs.set i (f i) sp = c.regs sp := by
      by_cases h : sp = i
      · subst h
        rw [Regs.set_self (by decide), hsp (.head _)]
      · exact Regs.set_of_ne h
    obtain ⟨r, he, hr, hr'⟩ := ih (c := { c with regs := c.regs.set i (f i) })
      (by
        simp only [hsame]
        exact fun j hj => hk j (.tail _ hj))
      (fun h => by simp only [hsame, hsp (.tail _ h)])
    refine ⟨r, ?_, fun j hj h0 => ?_, fun j hj => ?_⟩
    · rw [← he, ← hi]
      rfl
    · by_cases hj' : j ∈ is
      · exact hr j hj' h0
      · obtain rfl := (List.mem_cons.1 hj).resolve_right hj'
        rw [hr' j hj', Regs.set_self h0]
    · rw [List.mem_cons, not_or] at hj
      rw [hr' j hj.2, Regs.set_of_ne hj.1]

end Rv64
