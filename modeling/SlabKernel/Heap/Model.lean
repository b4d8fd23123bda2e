import SlabKernel.Buddy.Model

/-!
# The first-fit heap (`h/MemoryAllocator.h`, `src/kernel/MemoryAllocator.cpp`)

The static members of `MemoryAllocator` are the fields of a record; `header` holds the block
headers, which lie in the heap itself. `kmem_alloc` and `kmem_free` call the page table but read
nothing of it, so they return their calls, in order (`MmuCall`).
-/

namespace SlabKernel

open Function (update)

/-- `a & ~(BLOCK_SIZE - 1)`. -/
def pageBegin (a : Nat) : Nat := a / blockSize * blockSize

/-- `MEM_BLOCK_SIZE`. -/
abbrev memBlockSize : Nat := 64

/-- `sizeof(BlockHeader)`. -/
abbrev sizeofBlockHeader : Nat := 24

/-- `MemoryAllocator::BlockHeader`. -/
structure BlockHeader where
  next : Ptr
  prev : Ptr
  size : Nat

/-- A call of the page table: `MMU::map(vaddr, MMU::UserReadWriteExecute)` or
`MMU::punmap(start, end)`. -/
inductive MmuCall
  | map (vaddr : Nat)
  | punmap (start end_ : Nat)
  deriving DecidableEq

/-- The static members of class `MemoryAllocator`, and the headers of the blocks. -/
structure MemoryAllocator where
  heap : HeapBounds
  header : Nat → BlockHeader
  fmem_head : Ptr
  init : Int

namespace MemoryAllocator

def mod (m : MemoryAllocator) (b : Nat) (f : BlockHeader → BlockHeader) : MemoryAllocator :=
  { m with header := update m.header b (f (m.header b)) }

/-- The write `p->prev = v` unless `p` is null. -/
def setPrev (m : MemoryAllocator) (p v : Ptr) : MemoryAllocator :=
  match p with
  | none => m
  | some b => m.mod b fun x => { x with prev := v }

/-- `tryToJoin`: whether it has joined `curr` with the next free block, and the state. -/
def tryToJoin (m : MemoryAllocator) (curr : Ptr) : Bool × MemoryAllocator :=
  match curr with
  | none => (false, m)
  | some curr =>
    match (m.header curr).next with
    | none => (false, m)
    | some next =>
      if curr + (m.header curr).size + sizeofBlockHeader = next then
        let m := m.mod curr fun x =>
          { x with size := x.size + ((m.header next).size + sizeofBlockHeader) }
        let m := m.mod curr fun x => { x with next := (m.header next).next }
        (true, m.setPrev (m.header curr).next (some curr))
      else (false, m)

/-- The calls of `tryToUnmap`. -/
def tryToUnmap (m : MemoryAllocator) (addr : Nat) : List MmuCall :=
  let offset := (m.header addr).size + sizeofBlockHeader
  let start := if addr % blockSize ≠ 0 then pageBegin addr + blockSize else addr
  let end_ := sub64 (pageBegin (addr + offset)) blockSize
  if end_ < start then [] else [.punmap start end_]

/-- The calls of `if (tryToJoin(curr) > 0) tryToUnmap(curr)`; a null block is never joined. -/
def unmapJoined (m : MemoryAllocator) (joined : Bool) : Ptr → List MmuCall
  | some curr => if joined then m.tryToUnmap curr else []
  | none => []

/-! ## `kmem_alloc` -/

/-- The first call makes one free block of the heap. -/
def start (m : MemoryAllocator) : MemoryAllocator :=
  if m.fmem_head = none ∧ m.init = 0 then
    { m with
      fmem_head := some m.heap.startAddr
      header := update m.header m.heap.startAddr
        ⟨none, none, sub64 (sub64 m.heap.endAddr m.heap.startAddr) sizeofBlockHeader⟩
      init := 1 }
  else m

/-- The search for the first free block with `bytes` bytes; the outer `none` is an endless loop. -/
def findLoop (m : MemoryAllocator) (bytes : Nat) : Nat → Ptr → Option Ptr
  | _, none => some none
  | 0, some _ => none
  | fuel + 1, some curr =>
    if (m.header curr).size ≥ bytes then some (some curr)
    else findLoop m bytes fuel (m.header curr).next

/-- The check after a split: the remainder does not lie in the heap. -/
def leavesHeap (m : MemoryAllocator) (newBlock : Nat) : Prop :=
  newBlock ≥ m.heap.endAddr ∨
    newBlock + (m.header newBlock).size + sizeofBlockHeader > m.heap.endAddr

instance (m : MemoryAllocator) (newBlock : Nat) : Decidable (m.leavesHeap newBlock) :=
  inferInstanceAs (Decidable (_ ∨ _))

/-- The remainder of `curr` takes its place in the free list. -/
def splitBlock (m : MemoryAllocator) (curr bytes remainder : Nat) : MemoryAllocator :=
  let m := m.mod curr fun x => { x with size := bytes }
  let newBlock := curr + (sizeofBlockHeader + bytes)
  let m := match (m.header curr).prev with
    | some prev =>
      (m.mod prev fun x => { x with next := some newBlock }).mod newBlock fun x =>
        { x with prev := some prev }
    | none =>
      { m.mod newBlock fun x => { x with prev := none } with fmem_head := some newBlock }
  let m := m.mod newBlock fun x => { x with next := (m.header curr).next }
  let m := m.setPrev (m.header newBlock).next (some newBlock)
  m.mod newBlock fun x => { x with size := sub64 remainder sizeofBlockHeader }

/-- `curr` leaves the free list as a whole. -/
def takeBlock (m : MemoryAllocator) (curr : Nat) : MemoryAllocator :=
  match (m.header curr).prev with
  | some prev =>
    let m := m.mod prev fun x => { x with next := (m.header curr).next }
    m.setPrev (m.header curr).next (m.header curr).prev
  | none =>
    let m := m.setPrev (m.header curr).next none
    { m with fmem_head := (m.header curr).next }

/-- The block `curr` gives `bytes` bytes to the caller and leaves the free list. -/
def allot (m : MemoryAllocator) (curr bytes : Nat) : MemoryAllocator :=
  let remainder := sub64 (m.header curr).size bytes
  let m :=
    if remainder > sizeofBlockHeader then
      let m := m.splitBlock curr bytes remainder
      if m.leavesHeap (curr + (sizeofBlockHeader + bytes)) then { m with fmem_head := none } else m
    else m.takeBlock curr
  let m := m.mod curr fun x => { x with next := none }
  m.mod curr fun x => { x with prev := none }

/-- The calls that map the pages of the block `curr`. -/
def mapBlock (m : MemoryAllocator) (curr : Nat) : List MmuCall :=
  let addr := curr + sizeofBlockHeader
  let start_page := pageBegin curr
  let end_page := pageBegin (addr + (m.header curr).size)
  let pageNum := sub64 end_page start_page / blockSize
  (List.range (pageNum + 1)).map fun i => .map (start_page + i * blockSize)

/-- `kmem_alloc` of `size` units: the payload, the calls, and the state. -/
def kmem_alloc (m : MemoryAllocator) (size : Nat) :
    Option (Ptr × List MmuCall × MemoryAllocator) := do
  let m := m.start
  let bytes := size * memBlockSize % 2 ^ 64
  let curr ← m.findLoop bytes addrSpace m.fmem_head
  match curr with
  | none => return (none, [], m)
  | some curr =>
    let m := m.allot curr bytes
    return (some (curr + sizeofBlockHeader), m.mapBlock curr, m)

/-! ## `mem_alloc` -/

/-- The number of units that `mem_alloc` asks for. -/
def memAllocUnits (size : Nat) : Nat :=
  size / memBlockSize + if size % memBlockSize ≠ 0 then 1 else 0

/-- `mem_alloc`: the system call hands the number of units to `kmem_alloc`. -/
def mem_alloc (m : MemoryAllocator) (size : Nat) : Option (Ptr × List MmuCall × MemoryAllocator) :=
  m.kmem_alloc (memAllocUnits size)

/-! ## `kmem_free` -/

/-- The walk to the last free block before the payload `addr`. -/
def seekLoop (m : MemoryAllocator) (addr : Nat) : Nat → Nat → Option Nat
  | 0, _ => none
  | fuel + 1, curr =>
    match (m.header curr).next with
    | none => some curr
    | some next => if addr > next then seekLoop m addr fuel next else some curr

/-- The free block behind which the block of `addr` belongs. -/
def seek (m : MemoryAllocator) (addr : Nat) : Option Ptr :=
  match m.fmem_head with
  | none => some none
  | some head => if addr < head then some none else (m.seekLoop addr addrSpace head).map some

/-- `newBlock` joins the free list behind `curr`. -/
def linkBlock (m : MemoryAllocator) (newBlock : Nat) (curr : Ptr) : MemoryAllocator :=
  let m := m.mod newBlock fun x => { x with prev := curr }
  let next := match curr with
    | some curr => (m.header curr).next
    | none => m.fmem_head
  let m := m.mod newBlock fun x => { x with next }
  let m := m.setPrev (m.header newBlock).next (some newBlock)
  match curr with
  | some curr => m.mod curr fun x => { x with next := some newBlock }
  | none => { m with fmem_head := some newBlock }

/-- `kmem_free`: its result, the calls, and the state. -/
def kmem_free (m : MemoryAllocator) (addr : Ptr) :
    Option (Int × List MmuCall × MemoryAllocator) :=
  match addr with
  | none => some (-1, [], m)
  | some addr => do
    let curr ← m.seek addr
    let newBlock := addr - sizeofBlockHeader
    let m := m.linkBlock newBlock curr
    let calls := m.tryToUnmap newBlock
    let (joined, m) := m.tryToJoin (some newBlock)
    let calls := calls ++ m.unmapJoined joined (some newBlock)
    let (joined, m) := m.tryToJoin curr
    let calls := calls ++ m.unmapJoined joined curr
    return (0, calls, m)

end MemoryAllocator

end SlabKernel
