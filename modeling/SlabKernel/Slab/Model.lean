import SlabKernel.Buddy.Model

/-!
# The slab allocator (`h/cache.h`, `h/SlabAllocator.h`, `h/CachePool.h`, `h/slab.h`)

`Kmem` is the state of the classes `Cache`, `Slab` and `CachePool` over the buddy allocator: one
memory for each kind of object, the first word of each free cache slot, and the static members. A
constructor or destructor of objects is a function outside of the allocator: its calls are recorded.

The counters are natural numbers; a decrement is that of `size_t`. `Slab::freeIndex` is what
`Slab::freeArray` points to. `Buddy::free` writes the first word of a block, where a slab has its
`owner`: a header in a page that has been given back is dead, and has no owner.
-/

namespace SlabKernel

open Function (update)

/-- `Cache::SlabGroup`. -/
inductive SlabGroup
  | FULL
  | PARTIAL
  | FREE
  deriving DecidableEq

/-- `Cache::ObjectGroup`. -/
inductive ObjectGroup
  | SMALL_MEMORY_BUFFER
  | KERNEL_OBJECT

/-- Class `Slab`. -/
structure Slab where
  owner : Ptr
  next : Ptr
  prev : Ptr
  mem : Ptr
  free : Nat
  freeArray : Nat
  freeIndex : Nat → Nat
  numOfSlots : Nat
  numOfFreeSlots : Nat
  group : SlabGroup

/-- Class `Cache`. -/
structure Cache where
  slotSize : Nat
  ctor : Ptr
  dtor : Ptr
  group : ObjectGroup
  next : Ptr
  prev : Ptr
  slabsFull : Ptr
  slabsPartial : Ptr
  slabsFree : Ptr
  shrink : Int
  slabSize : Nat
  slabOrder : Nat
  objNum : Nat
  numOfSlabs : Nat
  type : Int
  error : Int

/-- `CachePool::CacheRecord`: a page of slots for caches. -/
structure CacheRecord where
  numOfSlots : Nat
  numOfFreeSlots : Nat
  next : Ptr
  freeSlot : Ptr
  slots : Nat

/-- `sizeof(Slab)`, `sizeof(Cache)` and `sizeof(CacheRecord)`. -/
abbrev sizeofSlab : Nat := 72

abbrev sizeofCache : Nat := 128

abbrev sizeofCacheRecord : Nat := 32

/-- `(unsigned)-1`. -/
abbrev endIndex : Nat := 2 ^ 32 - 1

/-- `MIN_BUFF_ORDER`, `MIN_BUFF_SIZE`, `MAX_BUFF_SIZE` and `BUFFER_NUM`. -/
abbrev minBuffOrder : Nat := 5

abbrev minBuffSize : Nat := 2 ^ 5

abbrev maxBuffSize : Nat := 2 ^ 17

abbrev bufferNum : Nat := 13

/-- The state of the slab allocator. -/
structure Kmem where
  buddy : Buddy
  slab : Nat → Slab
  cache : Nat → Cache
  record : Nat → CacheRecord
  /-- The first word of a free slot. -/
  freeLink : Nat → Ptr
  /-- `CachePool::head`, `tail`, `cacheHead` and `cacheTail`. -/
  head : Ptr
  tail : Ptr
  cacheHead : Ptr
  cacheTail : Ptr
  memoryBuffers : Nat → Ptr
  memBuffSlabs : Nat → Ptr
  /-- The calls of constructors and destructors: the function and the object. -/
  calls : List (Nat × Nat)

namespace Kmem

def modSlab (k : Kmem) (s : Nat) (f : Slab → Slab) : Kmem :=
  { k with slab := update k.slab s (f (k.slab s)) }

def modCache (k : Kmem) (c : Nat) (f : Cache → Cache) : Kmem :=
  { k with cache := update k.cache c (f (k.cache c)) }

def modRecord (k : Kmem) (r : Nat) (f : CacheRecord → CacheRecord) : Kmem :=
  { k with record := update k.record r (f (k.record r)) }

/-- The write `p->prev = v` unless `p` is null. -/
def setPrev (k : Kmem) (p v : Ptr) : Kmem :=
  match p with
  | none => k
  | some s => k.modSlab s fun x => { x with prev := v }

def setError (k : Kmem) (c : Nat) (err : Int) : Kmem := k.modCache c fun x => { x with error := err }

/-- `if (fn) fn(obj)`. -/
def call (k : Kmem) (fn : Ptr) (obj : Nat) : Kmem :=
  match fn with
  | none => k
  | some f => { k with calls := k.calls ++ [(f, obj)] }

/-- `Buddy::free`, its result dropped. -/
def free (k : Kmem) (addr : Ptr) (order : Nat) : Option Kmem :=
  (k.buddy.free addr order).map fun r => { k with buddy := r.2 }

end Kmem

/-- The loop `while (fits(n)) n++`. -/
def countLoop (fits : Nat → Bool) : Nat → Nat → Option Nat
  | 0, _ => none
  | fuel + 1, n => if fits n then countLoop fits fuel (n + 1) else some n

/-! ## `Cache`: the lists -/

namespace Cache

/-- The outer loop of `getOrder`. -/
def getOrderLoop (slotSize : Nat) : Nat → Nat → Option (Nat × Nat)
  | 0, _ => none
  | fuel + 1, minOrder => do
    let numSlots ← countLoop
      (fun n => (n * slotSize + n * 4 + sizeofSlab) % 2 ^ 64 ≤ 2 ^ minOrder * blockSize % 2 ^ 64)
      addrSpace 0
    -- `--numSlots == 0`
    if numSlots = 1 then getOrderLoop slotSize fuel (minOrder + 1)
    else return (minOrder, sub64 numSlots 1)

/-- `Cache::getOrder`: the order of a slab and the number of its slots. The loop ends at the latest
when the slab size overflows to 0, at the order 52. -/
def getOrder (slotSize : Nat) : Option (Nat × Nat) := getOrderLoop slotSize 53 0

def moveFree (k : Kmem) (this slab : Nat) (grp : SlabGroup) : Option Kmem := do
  let first ← (k.cache this).slabsFree
  let k := k.modCache this fun x => { x with slabsFree := (k.slab first).next }
  let k := k.setPrev (k.cache this).slabsFree none
  let k := k.modSlab slab fun x => { x with prev := none }
  let header := if grp = .PARTIAL then (k.cache this).slabsPartial else (k.cache this).slabsFull
  let k := k.modSlab slab fun x => { x with group := grp }
  let k := k.modSlab slab fun x => { x with next := header }
  let k := k.setPrev header (some slab)
  if grp = .PARTIAL then return k.modCache this fun x => { x with slabsPartial := some slab }
  else return k.modCache this fun x => { x with slabsFull := some slab }

def moveSlab (k : Kmem) (this slab : Nat) (grp : SlabGroup) : Option Kmem := do
  let curr :=
    if (k.slab slab).group = .PARTIAL then (k.cache this).slabsPartial else (k.cache this).slabsFull
  let header :=
    if (k.slab slab).group = .PARTIAL then
      if grp = .FREE then (k.cache this).slabsFree else (k.cache this).slabsFull
    else
      if grp = .PARTIAL then (k.cache this).slabsPartial else (k.cache this).slabsFree
  let k ← match (k.slab slab).prev with
    | none => do
      let first ← curr
      let curr := (k.slab first).next
      let k := k.setPrev curr none
      if (k.slab slab).group = .PARTIAL then
        some (k.modCache this fun x => { x with slabsPartial := curr })
      else some (k.modCache this fun x => { x with slabsFull := curr })
    | some prev =>
      let k := k.modSlab prev fun x => { x with next := (k.slab slab).next }
      some (k.setPrev (k.slab slab).next (k.slab slab).prev)
  let k := k.modSlab slab fun x => { x with group := grp }
  let k := k.modSlab slab fun x => { x with prev := none }
  let k := k.modSlab slab fun x => { x with next := header }
  let k := k.setPrev header (some slab)
  match grp with
  | .FREE => return k.modCache this fun x => { x with slabsFree := some slab }
  | .PARTIAL => return k.modCache this fun x => { x with slabsPartial := some slab }
  | .FULL => return k.modCache this fun x => { x with slabsFull := some slab }

end Cache

/-! ## `Slab`: the objects -/

namespace Slab

def initSlab (k : Kmem) (slab handle : Nat) : Kmem :=
  let k := k.modSlab slab fun x => { x with prev := none }
  let k := k.modSlab slab fun x => { x with next := (k.cache handle).slabsFree }
  let k := k.setPrev (k.cache handle).slabsFree (some slab)
  let k := k.modCache handle fun x => { x with slabsFree := some slab }
  let k := k.modCache handle fun x => { x with numOfSlabs := x.numOfSlabs + 1 }
  let objNum := (k.cache handle).objNum
  k.modSlab slab fun x =>
    { x with
      numOfSlots := objNum
      numOfFreeSlots := objNum
      group := .FREE
      free := 0
      freeArray := slab + sizeofSlab
      owner := some handle
      freeIndex := fun i =>
        if i < objNum - 1 then i + 1 else if i = objNum - 1 then endIndex else x.freeIndex i }

def createSlab (k : Kmem) (size handle : Nat) : Option Kmem :=
  match k.buddy.alloc size with
  | (none, buddy) => some ({ k with buddy }.setError handle (-2))
  | (some newSlab, buddy) =>
    let k := initSlab { k with buddy } newSlab handle
    let mem := (k.slab newSlab).freeArray + 4 * (k.slab newSlab).numOfSlots
    let k := k.modSlab newSlab fun x => { x with mem := some mem }
    let k := (List.range (k.cache handle).objNum).foldl (fun k i =>
      k.call (k.cache handle).ctor (mem + i * (k.cache handle).slotSize)) k
    Cache.moveFree k handle newSlab .PARTIAL

def takeObject (k : Kmem) (slab : Ptr) : Option (Ptr × Kmem) :=
  match slab with
  | none => some (none, k)
  | some s => do
    let mem ← (k.slab s).mem
    let owner ← (k.slab s).owner
    let objp := mem + (k.slab s).free * (k.cache owner).slotSize
    return (some objp, k.modSlab s fun x =>
      { x with free := x.freeIndex x.free, numOfFreeSlots := sub64 x.numOfFreeSlots 1 })

def updateSlab (k : Kmem) (slab : Nat) : Option Kmem := do
  let S := k.slab slab
  let k ←
    if S.numOfFreeSlots = 0 then
      if S.numOfSlots = 1 then S.owner.bind fun owner => Cache.moveSlab k owner slab .FREE
      else S.owner.bind fun owner => Cache.moveSlab k owner slab .PARTIAL
    else
      if S.numOfFreeSlots = S.numOfSlots - 1 then
        S.owner.bind fun owner => Cache.moveSlab k owner slab .FREE
      else some k
  return k.modSlab slab fun x => { x with numOfFreeSlots := x.numOfFreeSlots + 1 }

/-- The end of `putObject` and `putBuffer`: the slot of `objp` becomes the first free one. -/
def putIndex (k : Kmem) (slab objp : Nat) : Option Kmem := do
  let mem ← (k.slab slab).mem
  let owner ← (k.slab slab).owner
  let index := sub64 objp mem / (k.cache owner).slotSize % 2 ^ 32
  return k.modSlab slab fun x =>
    { x with freeIndex := update x.freeIndex index x.free, free := index }

def putObject (k : Kmem) (objp handle : Nat) : Option Kmem := do
  let header := objp / blockSize * blockSize
  if (k.slab header).owner ≠ some handle then return k.setError handle (-3)
  else
    let k ← updateSlab k header
    let owner ← (k.slab header).owner
    let k := k.call (k.cache owner).dtor objp
    let k := k.call (k.cache owner).ctor objp
    putIndex k header objp

/-- The search of `putBuffer` in one list. -/
def findSlab (k : Kmem) (mem : Ptr) : Nat → Ptr → Option Ptr
  | _, none => some none
  | 0, some _ => none
  | fuel + 1, some curr =>
    if (k.slab curr).mem = mem then some (some curr) else findSlab k mem fuel (k.slab curr).next

/-- The search of `putBuffer`, with `n` classes left from `buffIndex` on. -/
def findBuffer (k : Kmem) (mem : Ptr) : Nat → Nat → Option Ptr
  | 0, _ => some none
  | n + 1, buffIndex =>
    match k.memoryBuffers buffIndex with
    | none => findBuffer k mem n (buffIndex + 1)
    | some bcache => do
      match ← findSlab k mem addrSpace (k.cache bcache).slabsPartial with
      | some curr => return some curr
      | none =>
        match ← findSlab k mem addrSpace (k.cache bcache).slabsFull with
        | some curr => return some curr
        | none => findBuffer k mem n (buffIndex + 1)

def putBuffer (k : Kmem) (objp : Nat) : Option Kmem := do
  let bufferObject := objp / blockSize * blockSize
  match ← findBuffer k (some bufferObject) bufferNum 0 with
  | none => return k
  | some slabHeader =>
    let k ← updateSlab k slabHeader
    putIndex k slabHeader objp

end Slab

/-! ## `CachePool`: the sizes of buffers -/

namespace CachePool

/-- The loop `while (x > value) value <<= 1, order++`. -/
def orderLoop (x : Nat) : Nat → Nat → Nat → Nat
  | 0, _, order => order
  | fuel + 1, value, order => if x > value then orderLoop x fuel (value * 2) (order + 1) else order

/-- `getPowerOfTwo`; its callers pass at least `MIN_BUFF_SIZE`. -/
def getPowerOfTwo (x : Nat) : Nat := orderLoop x 64 1 0 - minBuffOrder

def getOrder (x : Nat) : Nat := orderLoop x 52 blockSize 0

end CachePool

/-! ## `Cache`: allocation -/

namespace Slab

def createBufferSlab (cacheAlloc : Kmem → Nat → Option (Ptr × Kmem)) (k : Kmem)
    (size handle : Nat) : Option Kmem :=
  match k.memBuffSlabs (CachePool.getPowerOfTwo (k.cache handle).slotSize) with
  | none => some (k.setError handle (-1))
  | some slabCache => do
    match ← cacheAlloc k slabCache with
    | (none, k) => return k.setError handle (-1)
    | (some newSlab, k) =>
      let (mem, buddy) := k.buddy.alloc size
      let k := { k with buddy }.modSlab newSlab fun x => { x with mem }
      match mem with
      | none => return k.setError handle (-1)
      | some _ => Cache.moveFree (initSlab k newSlab handle) handle newSlab .PARTIAL

end Slab

namespace Cache

/-- The end of `cacheAlloc`: an object of the first partial slab. -/
def takePartial (k : Kmem) (this : Nat) : Option (Ptr × Kmem) := do
  let (objp, k) ← Slab.takeObject k (k.cache this).slabsPartial
  match (k.cache this).slabsPartial with
  | some slab =>
    if (k.slab slab).numOfFreeSlots = 0 then
      let k ← moveSlab k this slab .FULL
      return (objp, k)
    else return (objp, k)
  | none => return (objp, k)

/-- The beginning of `cacheAlloc`: a slab with a free slot becomes the first partial one, a new one
of `slabAlloc` if need be. -/
def refill (slabAlloc : Kmem → Nat → Option Kmem) (k : Kmem) (this : Nat) : Option Kmem :=
  if (k.cache this).slabsPartial = none ∧ (k.cache this).slabsFree = none then slabAlloc k this
  else
    match (k.cache this).slabsPartial, (k.cache this).slabsFree with
    | none, some slab => moveFree k this slab .PARTIAL
    | _, _ => some k

def slabAlloc (cacheAlloc : Kmem → Nat → Option (Ptr × Kmem)) (k : Kmem) (this : Nat) :
    Option Kmem :=
  if (k.cache this).type = 0 then Slab.createSlab k (k.cache this).slabOrder this
  else Slab.createBufferSlab cacheAlloc k (k.cache this).slabOrder this

/-- `cacheAlloc`; a buffer slab takes its descriptor from another cache, `depth` bounds the nested
calls. -/
def cacheAllocDepth : Nat → Kmem → Nat → Option (Ptr × Kmem)
  | 0, _, _ => none
  | depth + 1, k, this => do
    let oldNumOfSlabs := (k.cache this).numOfSlabs
    let k ← refill (slabAlloc (cacheAllocDepth depth)) k this
    let k :=
      if (k.cache this).numOfSlabs > oldNumOfSlabs ∧ (k.cache this).numOfSlabs > 1 then
        k.modCache this fun x => { x with shrink := 0 }
      else k
    takePartial k this

def cacheAlloc (k : Kmem) (this : Nat) : Option (Ptr × Kmem) := cacheAllocDepth addrSpace k this

def cacheFree (k : Kmem) (this : Nat) (objp : Ptr) : Option Kmem :=
  match objp with
  | none => some k
  | some p => Slab.putObject k p this

end Cache

/-! ## `Cache`: shrinking and destruction -/

namespace Slab

def destroySlab (k : Kmem) (slab : Nat) : Option Kmem := do
  let S := k.slab slab
  let owner ← S.owner
  let handle := k.cache owner
  let k ← match handle.dtor with
    | none => some k
    | some dtor => do
      let mem ← S.mem
      some { k with
        calls := k.calls ++ (List.range handle.objNum).map fun i => (dtor, mem + i * handle.slotSize) }
  if handle.type = 0 then
    let k ← k.free (some slab) handle.slabOrder
    -- the link of the free block is in the place of the owner
    return k.modSlab slab fun x => { x with owner := none }
  else
    let k ← k.free S.mem handle.slabOrder
    let slabCache ← k.memBuffSlabs (CachePool.getPowerOfTwo handle.slotSize)
    Cache.cacheFree k slabCache (some slab)

end Slab

namespace Cache

/-- The loop of `cacheShrink`, from `curr` on. -/
def shrinkLoop (this : Nat) : Nat → Ptr → Nat → Kmem → Option (Nat × Kmem)
  | _, none, count, k => some (count, k)
  | 0, some _, _, _ => none
  | fuel + 1, some old, count, k => do
    let k := k.modCache this fun x => { x with numOfSlabs := sub64 x.numOfSlabs 1 }
    let owner ← (k.slab old).owner
    let numOfBlocks := (k.cache owner).slabSize / blockSize
    let curr := (k.slab old).next
    let k ← Slab.destroySlab k old
    shrinkLoop this fuel curr (count + numOfBlocks) k

def cacheShrink (k : Kmem) (this : Nat) : Option (Nat × Kmem) :=
  if (k.cache this).shrink = 0 then some (0, k.modCache this fun x => { x with shrink := 1 })
  else shrinkLoop this addrSpace (k.cache this).slabsFree 0 k

/-- `deallocSlabGroup`, from `curr` on. -/
def deallocSlabGroup : Nat → Ptr → Kmem → Option Kmem
  | _, none, k => some k
  | 0, some _, _ => none
  | fuel + 1, some old, k => do
    let curr := (k.slab old).next
    let k ← Slab.destroySlab k old
    deallocSlabGroup fuel curr k

def destroyCache (k : Kmem) (cachep : Nat) : Option Kmem := do
  let k ← deallocSlabGroup addrSpace (k.cache cachep).slabsFree k
  let k ← deallocSlabGroup addrSpace (k.cache cachep).slabsPartial k
  deallocSlabGroup addrSpace (k.cache cachep).slabsFull k

end Cache

/-! ## `CachePool` -/

namespace CachePool

def createRecord (k : Kmem) : Option (Ptr × Kmem) :=
  match k.buddy.alloc 0 with
  | (none, buddy) => some (none, { k with buddy })
  | (some newRecord, buddy) => do
    let n ← countLoop (fun n => n * sizeofCache + sizeofCacheRecord ≤ blockSize) addrSpace 0
    let numOfSlots := n - 1
    let slots := newRecord + sizeofCacheRecord
    return (some newRecord, { k with
      buddy
      record := update k.record newRecord
        { numOfSlots, numOfFreeSlots := numOfSlots, next := none, freeSlot := some slots, slots }
      freeLink := (List.range numOfSlots).foldl (fun f i =>
        update f (slots + i * sizeofCache)
          (if i < numOfSlots - 1 then some (slots + (i + 1) * sizeofCache) else none)) k.freeLink })

/-- `CachePoolInit`; the assignments to the members of `tail` change nothing, as `tail` is `head`. -/
def CachePoolInit (k : Kmem) : Option Kmem := do
  let (record, k) ← createRecord k
  let record ← record
  return { k with head := some record, tail := some record }

/-- The search of `allocateSlot`, from `curr` on. -/
def findRecord (k : Kmem) : Nat → Ptr → Option Ptr
  | _, none => some none
  | 0, some _ => none
  | fuel + 1, some curr =>
    if (k.record curr).freeSlot ≠ none then some (some curr)
    else findRecord k fuel (k.record curr).next

def allocateSlot (k : Kmem) : Option (Ptr × Kmem) := do
  let curr ← findRecord k addrSpace k.head
  let (curr, k) ← match curr with
    | some curr => some (some curr, k)
    | none => do
      let (curr, k) ← createRecord k
      match k.tail with
      | none => some (curr, { k with head := curr, tail := curr })
      | some tail =>
        some (curr, { k.modRecord tail fun x => { x with next := curr } with tail := curr })
  match curr with
  | none => return (none, k)
  | some curr =>
    let ret ← (k.record curr).freeSlot
    return (some ret, k.modRecord curr fun x =>
      { x with freeSlot := k.freeLink ret, numOfFreeSlots := x.numOfFreeSlots - 1 })

/-- The search of `destroyRecord`: the record before `record`. -/
def findPrev (k : Kmem) (record : Nat) : Nat → Ptr → Ptr → Option Ptr
  | 0, _, _ => none
  | fuel + 1, prev, curr =>
    if curr = some record then some prev
    else do
      let c ← curr
      findPrev k record fuel (some c) (k.record c).next

def destroyRecord (k : Kmem) (record : Nat) : Option Kmem := do
  let prev ← findPrev k record addrSpace none k.head
  let p ← prev
  let k := k.modRecord p fun x => { x with next := (k.record record).next }
  let k := if k.tail = some record then { k with tail := prev } else k
  let k := k.modRecord record fun x => { x with next := none }
  k.free (some record) 0

/-- The part of `deallocateSlot` that takes the cache off the list of caches. -/
def unlinkCache (k : Kmem) (handle : Nat) : Option Kmem := do
  match (k.cache handle).prev, (k.cache handle).next with
  | none, _ =>
    let first ← k.cacheHead
    let cacheHead := (k.cache first).next
    match cacheHead with
    | none => return { k with cacheHead, cacheTail := none }
    | some h => return { k with cacheHead }.modCache h fun x => { x with prev := none }
  | some _, none =>
    let last ← k.cacheTail
    let cacheTail := (k.cache last).prev
    let t ← cacheTail
    return { k with cacheTail }.modCache t fun x => { x with next := none }
  | some prev, some next =>
    let k := k.modCache prev fun x => { x with next := some next }
    return k.modCache next fun x => { x with prev := some prev }

def deallocateSlot (k : Kmem) (handle : Nat) : Option Kmem := do
  let k ← unlinkCache k handle
  let k := k.modCache handle fun x => { x with next := none, prev := none }
  let record := handle / blockSize * blockSize
  let k := { k with freeLink := update k.freeLink handle (k.record record).freeSlot }
  let k := k.modRecord record fun x =>
    { x with freeSlot := some handle, numOfFreeSlots := x.numOfFreeSlots + 1 }
  if (k.record record).numOfFreeSlots = (k.record record).numOfSlots ∧ k.head ≠ some record then
    destroyRecord k record
  else return k

end CachePool

/-! ## The interface (`src/kernel/slab.cpp`) -/

/-- `(1 << order) * BLOCK_SIZE`, computed by `int`s. -/
@[irreducible] def Cache.slabBytes (order : Nat) : Nat :=
  (toInt32 (toInt32 (2 ^ order) * blockSize) % 2 ^ 64).toNat

/-- The constructor `Cache::Cache`. -/
def Cache.construct (k : Kmem) (this size : Nat) (ctor dtor : Ptr) : Option Kmem := do
  let k := match k.cacheTail with
    | none =>
      { k with cacheHead := some this, cacheTail := some this }.modCache this fun x =>
        { x with next := none, prev := none }
    | some tail =>
      let k := k.modCache this fun x => { x with prev := some tail, next := none }
      { k.modCache tail fun x => { x with next := some this } with cacheTail := some this }
  let (slabOrder, objNum) ← Cache.getOrder size
  return k.modCache this fun x =>
    { slotSize := size, ctor, dtor, group := .KERNEL_OBJECT, next := x.next, prev := x.prev
      slabsFull := none, slabsPartial := none, slabsFree := none, shrink := 1
      slabSize := slabBytes slabOrder, slabOrder, objNum, numOfSlabs := 0, type := 0
      error := 0 }

/-- `new Cache(...)`; with `-fcheck-new` the constructor runs only if there is a slot. -/
def kmem_cache_create (k : Kmem) (size : Nat) (ctor dtor : Ptr) : Option (Ptr × Kmem) := do
  match ← CachePool.allocateSlot k with
  | (none, k) => return (none, k)
  | (some this, k) =>
    let k ← Cache.construct k this size ctor dtor
    return (some this, k)

/-- `delete cachep`. -/
def kmem_cache_destroy (k : Kmem) (cachep : Ptr) : Option Kmem :=
  match cachep with
  | none => some k
  | some c => do
    let k ← Cache.destroyCache k c
    CachePool.deallocateSlot k c

def kmem_cache_shrink (k : Kmem) (cachep : Nat) : Option (Nat × Kmem) := Cache.cacheShrink k cachep

def kmem_cache_alloc (k : Kmem) (cachep : Nat) : Option (Ptr × Kmem) := Cache.cacheAlloc k cachep

def kmem_cache_free (k : Kmem) (cachep : Nat) (objp : Ptr) : Option Kmem :=
  Cache.cacheFree k cachep objp

namespace CachePool

/-- The loop of `SlabInit`, with `n` classes left from `i` on. -/
def SlabInitLoop : Nat → Nat → Kmem → Option Kmem
  | 0, _, k => some k
  | n + 1, i, k => do
    let objSize := 2 ^ (minBuffOrder + i)
    let numObjects := if blockSize < objSize then 1 else blockSize / objSize
    let (c, k) ← kmem_cache_create k (sizeofSlab + numObjects * 4) none none
    SlabInitLoop n (i + 1) { k with memBuffSlabs := update k.memBuffSlabs i c }

def SlabInit (k : Kmem) : Option Kmem := SlabInitLoop bufferNum 0 k

def bufferInit (k : Kmem) (index size : Nat) : Option Kmem := do
  let c ← k.memoryBuffers index
  return k.modCache c fun x =>
    { x with
      group := .SMALL_MEMORY_BUFFER
      type := 1
      objNum := if size > blockSize then 1 else blockSize / size
      slabOrder := getOrder size
      slabSize := Cache.slabBytes (getOrder size) }

def allocateBuffer (k : Kmem) (size : Nat) : Option (Ptr × Kmem) :=
  if size < minBuffSize ∨ size > maxBuffSize then some (none, k)
  else do
    let index := getPowerOfTwo size
    let k ← match k.memoryBuffers index with
      | some _ => some k
      | none => do
        let (c, k) ← kmem_cache_create k (2 ^ (minBuffOrder + index)) none none
        bufferInit { k with memoryBuffers := update k.memoryBuffers index c } index size
    let c ← k.memoryBuffers index
    Cache.cacheAlloc k c

def deallocateBuffer (k : Kmem) (objp : Ptr) : Option Kmem :=
  match objp with
  | none => some k
  | some p => Slab.putBuffer k p

/-- The loop of `SlabFinalize` over one array, with `n` members left from `i` on. -/
def destroyArray (array : Kmem → Nat → Ptr) : Nat → Nat → Kmem → Option Kmem
  | 0, _, k => some k
  | n + 1, i, k => do
    let k ← kmem_cache_destroy k (array k i)
    destroyArray array n (i + 1) k

def SlabFinalize (k : Kmem) : Option Kmem := do
  let k ← destroyArray Kmem.memoryBuffers bufferNum 0 k
  destroyArray Kmem.memBuffSlabs bufferNum 0 k

/-- The loop of `CachePoolFinalize`, from `curr` on. -/
def freeRecords : Nat → Ptr → Kmem → Option Kmem
  | _, none, k => some k
  | 0, some _, _ => none
  | fuel + 1, some old, k => do
    let curr := (k.record old).next
    let k ← k.free (some old) 0
    freeRecords fuel curr k

def CachePoolFinalize (k : Kmem) : Option Kmem := freeRecords addrSpace k.head k

end CachePool

def kmalloc (k : Kmem) (size : Nat) : Option (Ptr × Kmem) := CachePool.allocateBuffer k size

def kfree (k : Kmem) (objp : Ptr) : Option Kmem := CachePool.deallocateBuffer k objp

/-- The slab allocator before `kmem_init`, with an initialised buddy allocator. -/
def Kmem.reset (buddy : Buddy) : Kmem where
  buddy
  slab _ := ⟨none, none, none, none, 0, 0, fun _ => 0, 0, 0, .FULL⟩
  cache _ := ⟨0, none, none, .KERNEL_OBJECT, none, none, none, none, none, 0, 0, 0, 0, 0, 0, 0⟩
  record _ := ⟨0, 0, none, none, 0⟩
  freeLink _ := none
  head := none
  tail := none
  cacheHead := none
  cacheTail := none
  memoryBuffers _ := none
  memBuffSlabs _ := none
  calls := []

/-- `kmem_init`; `none` when it returns early or there is no memory. -/
def kmem_init (heap : HeapBounds) (maxOrder : Nat) (space : Nat) (blockNum : Int) : Option Kmem := do
  let (buddy, _) ← Buddy.buddyInit heap maxOrder space blockNum
  let k ← CachePool.CachePoolInit (.reset buddy)
  CachePool.SlabInit k

end SlabKernel
