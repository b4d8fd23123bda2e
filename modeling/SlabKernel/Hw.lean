import Mathlib.Algebra.Group.Int.Defs
import Mathlib.Algebra.Group.Nat.Defs
import Mathlib.Logic.Function.Basic

/-!
# Machine words and constants (`lib/hw.h`, `h/system.h`)

Addresses are natural numbers: no computation of the modelled code leaves the 64-bit space, where
C++ would leave the pointer's object first. A pointer is an `Option`, `none` is `nullptr`; a
function that may dereference a null or dead pointer, or may never return, returns an `Option`
whose `none` is that undefined run.
-/

namespace SlabKernel

/-- A pointer; `none` is `nullptr`. -/
abbrev Ptr := Option Nat

/-- `BLOCK_SIZE`. -/
abbrev blockSize : Nat := 4096

/-- The bound on every pointer walk: a walk over more nodes than there are addresses is cyclic, so
the code's loop never ends. -/
def addrSpace : Nat := 2 ^ 64

/-- The subtraction of two `uint64`. -/
def sub64 (a b : Nat) : Nat := (a + 2 ^ 64 - b) % 2 ^ 64

theorem sub64_of_le {a b : Nat} (h : b ≤ a) (h' : a - b < 2 ^ 64) : sub64 a b = a - b := by
  unfold sub64
  omega

/-- The value of an `int` after a computation with the mathematical result `n`. -/
def toInt32 (n : Int) : Int := n.bmod (2 ^ 32)

theorem toInt32_of_range {n : Int} (h : -2 ^ 31 ≤ n) (h' : n < 2 ^ 31) : toInt32 n = n := by
  unfold toInt32
  rw [Int.bmod_def]
  split <;> omega

end SlabKernel
