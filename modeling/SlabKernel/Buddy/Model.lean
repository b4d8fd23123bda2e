import SlabKernel.Hw

/-!
# The buddy allocator (`h/buddy.h`, `src/kernel/buddy.cpp`)

The static members of `Buddy` are the fields of a record; `next` holds the `FreeArea::next` word
at the start of each free block. The C++ members are named as in the source. `MAX_ORDER` is a
field, as `getBlockNum` computes it from the heap.

Sizes below `2 ^ 31` are computed exactly by the `int` arithmetic of the allocation paths; only
`getBlockNum` and `buddyInit`, whose operands grow with the heap, spell the conversions out.
-/

namespace SlabKernel

open Function (update)

/-- `HEAP_START_ADDR` and `HEAP_END_ADDR`. -/
structure HeapBounds where
  startAddr : Nat
  endAddr : Nat

/-- The static members of class `Buddy`. -/
structure Buddy where
  kernelStartAddr : Nat
  kernelEndAddr : Nat
  maxOrder : Nat
  blocksAddr : Nat
  bitmapAddr : Nat
  blocks : Nat → Ptr
  bitmap : Nat → BitVec 8
  next : Nat → Ptr

namespace Buddy

/-! ## Initialisation -/

/-- `greaterPowerOfTwo`'s loop; `none` when `value` has wrapped to 0 and the loop never ends. -/
def greaterPowerOfTwo (x : Nat) : Nat → Nat → Nat → Option (Nat × Nat)
  | 0, _, _ => none
  | n + 1, value, order =>
    if x ≥ value then greaterPowerOfTwo x n (value * 2 % 2 ^ 64) (order + 1)
    else some (value, order)

/-- `getBlockNum`: the number of blocks and the `MAX_ORDER` it sets (from 0). -/
def getBlockNum (heap : HeapBounds) : Option (Int × Nat) := do
  let size := (heap.endAddr - heap.startAddr) * 125 / 1000
  let numOfBlocks := toInt32 (size / blockSize : Nat)
  let (value, order) ← greaterPowerOfTwo (numOfBlocks % 2 ^ 64).toNat 65 1 0
  return (toInt32 value, order)

/-- `(1 << MAX_ORDER) / sizeof(uint8*)`: the bytes of the bitmap. -/
def bitmapBytes (maxOrder : Nat) : Nat := (toInt32 (2 ^ maxOrder) % 2 ^ 64 / 8).toNat

/-- `pageAlign`'s rounding: `(addr + mask) & ~mask` with `mask = (1 << MAX_ORDER) - 1`. -/
def pageAlign (maxOrder : Nat) (addr : Nat) : Nat :=
  (addr + (2 ^ maxOrder - 1)) / 2 ^ maxOrder * 2 ^ maxOrder

/-- `buddyInit`; `none` is its result -1. -/
def buddyInit (heap : HeapBounds) (maxOrder : Nat) (space : Nat) (blockNum : Int) :
    Option (Buddy × HeapBounds) :=
  if space < heap.startAddr ∨ space ≥ heap.endAddr then none
  else
    let metadata := (maxOrder + 1) * 8 + bitmapBytes maxOrder
    let kernelEndAddr := ((space : Int) + toInt32 (blockNum * blockSize) + metadata).toNat
    if kernelEndAddr ≥ heap.endAddr ∨ blockNum > toInt32 (2 ^ maxOrder) then none
    else
      let kernelStartAddr := pageAlign maxOrder (space + metadata)
      let kernelEndAddr := pageAlign maxOrder kernelEndAddr
      some ({ kernelStartAddr, kernelEndAddr, maxOrder
              blocksAddr := space
              bitmapAddr := space + (maxOrder + 1) * 8
              blocks := fun k => if k = maxOrder then some kernelStartAddr else none
              bitmap := fun _ => 0
              next := fun _ => none },
            { heap with startAddr := kernelEndAddr })

/-! ## The bitmap -/

/-- `getIndex`: the bit of the buddy pair of `addr` at `order`. -/
def getIndex (b : Buddy) (addr : Nat) (order : Nat) : Nat :=
  let entryIndex := 2 ^ b.maxOrder - 2 ^ (b.maxOrder - order)
  let entryAddr := addr - b.kernelStartAddr
  let offset := entryAddr >>> (b.maxOrder + order + 1)
  entryIndex + offset

def flipBit (b : Buddy) (index : Nat) : Buddy :=
  { b with bitmap := update b.bitmap (index / 8) (b.bitmap (index / 8) ^^^ 1#8 <<< (index % 8)) }

def isBuddyFree (b : Buddy) (index : Nat) : Bool :=
  b.bitmap (index / 8) &&& 1#8 <<< (index % 8) == 0#8

def flipParent (b : Buddy) (addr : Nat) (order : Nat) : Buddy :=
  if order < b.maxOrder then b.flipBit (b.getIndex addr order) else b

/-! ## The free lists -/

def addBlock (b : Buddy) (addr : Nat) (order : Nat) : Buddy :=
  { b with
    next := update b.next addr (b.blocks order)
    blocks := update b.blocks order (some addr) }

def getBlock (b : Buddy) (order : Nat) : Ptr × Buddy :=
  match b.blocks order with
  | none => (none, b)
  | some p => (some p, { b with blocks := update b.blocks order (b.next p) })

/-- The loop of `coalesceBuddy`: `curr` where the search stops, and the lists it leaves. -/
def coalesceLoop (b : Buddy) (order index : Nat) : Nat → Ptr → Ptr → Option (Ptr × Buddy)
  | _, _, none => some (none, b)
  | 0, _, some _ => none
  | n + 1, prev, some curr =>
    if b.getIndex curr order = index then
      let b := match prev with
        | none => { b with blocks := update b.blocks order (b.next curr) }
        | some prev => { b with next := update b.next prev (b.next curr) }
      some (some curr, { b with next := update b.next curr none })
    else coalesceLoop b order index n (some curr) (b.next curr)

/-- `coalesceBuddy`: takes the buddy off its list and returns the lower of the two addresses
(`nullptr`, the lower one, when the search fails). -/
def coalesceBuddy (b : Buddy) (order index : Nat) (addr : Nat) : Option (Ptr × Buddy) := do
  let (curr, b) ← b.coalesceLoop order index addrSpace none (b.blocks order)
  match curr with
  | none => return (none, b)
  | some curr => return (some (if addr > curr then curr else addr), b)

/-- `returnBlock`: the merged block, or `nullptr` when the block is put on its list. -/
def returnBlock (b : Buddy) (order : Nat) (addr : Nat) : Option (Ptr × Buddy) :=
  if order = b.maxOrder then some (none, b.addBlock addr order)
  else
    let index := b.getIndex addr order
    let b := b.flipBit index
    if b.isBuddyFree index then b.coalesceBuddy order index addr
    else some (none, b.addBlock addr order)

/-- `splitBlock`: halves the block down to order `lower`, putting every upper half on its list. -/
def splitBlock (b : Buddy) (addr : Nat) : Nat → Nat → Buddy
  | 0, _ => b
  | upper + 1, lower =>
    if lower ≤ upper then
      ((b.addBlock (addr + 2 ^ upper * blockSize) upper).flipParent addr (upper + 1)).splitBlock
        addr upper lower
    else b

/-! ## `alloc` and `free` -/

/-- The loop of `alloc`, with `n` sizes left from `curSize` on. -/
def allocLoop (b : Buddy) (order : Nat) : Nat → Nat → Ptr × Buddy
  | 0, _ => (none, b)
  | n + 1, curSize =>
    match b.getBlock curSize with
    | (none, b) => allocLoop b order n (curSize + 1)
    | (some p, b) =>
      let b := b.splitBlock p curSize order
      (some p, if order = b.maxOrder then b else b.flipBit (b.getIndex p order))

def alloc (b : Buddy) (order : Int) : Ptr × Buddy :=
  if order < 0 ∨ order > b.maxOrder then (none, b)
  else b.allocLoop order.toNat (b.maxOrder + 1 - order.toNat) order.toNat

/-- The loop of `free`, with `n` sizes left from `curSize` on. -/
def freeLoop (b : Buddy) : Nat → Nat → Nat → Option Buddy
  | 0, _, _ => some b
  | n + 1, curSize, curAddr =>
    match b.returnBlock curSize curAddr with
    | none => none
    | some (none, b) => some b
    | some (some freeAddr, b) => freeLoop b n (curSize + 1) freeAddr

/-- `free`: its result and the state after it. -/
def free (b : Buddy) (addr : Ptr) (order : Nat) : Option (Int × Buddy) :=
  match addr with
  | none => some (-1, b)
  | some addr => (b.freeLoop (b.maxOrder + 1 - order) order addr).map (0, ·)

end Buddy

end SlabKernel
