/-
This file embeds the dynamic memory allocator of `los_memory.c` in its default configuration:
32-bit pointers, no pool expansion, no node integrity magic, no leak check, no task id in the
node head, one region, water line on.

A pool is its head, whose bitmap and free-list heads are fields here, and the words of its
memory, addressed as the machine does. A node is the address of its head; the words of the
head are the physical predecessor and the size with its flags, and a free node keeps its two
free-list links in the two words that follow. Addresses and node sizes stay inside the pool,
so they are plain natural numbers; the size-class computation and the alignment, which can
leave 32 bits, wrap explicitly.
-/

import Mathlib.Algebra.Ring.Nat
import Mathlib.Logic.Function.Basic

namespace TowerSafe.Memory

/-! ### Words and bits -/

/-- A value kept in a `UINT32`. -/
def u32 (value : Nat) : Nat := value % 2 ^ 32

/-- Subtraction of `UINT32` values. -/
def u32Sub (first second : Nat) : Nat := (first + 2 ^ 32 - second) % 2 ^ 32

def clz (word : BitVec 32) : Nat := if word = 0 then 32 else 31 - word.toNat.log2

def osMemFFS (bitmap : BitVec 32) : Nat := 31 - clz (bitmap &&& (~~~bitmap + 1))

def osMemFLS (bitmap : BitVec 32) : Nat := 31 - clz bitmap

def osMemAlign (pointer alignSize : Nat) : Nat :=
  u32 (pointer + alignSize - 1) &&& (2 ^ 32 - alignSize)

def osMemIsAligned (pointer alignSize : Nat) : Bool := pointer &&& (alignSize - 1) == 0

def osMemIsPowTwo (value : Nat) : Bool := value &&& (value - 1) == 0

/-! ### Constants of the layout -/

/-- `OS_MEM_NODE_HEAD_SIZE`: the predecessor pointer and the size word. -/
def osMemNodeHeadSize : Nat := 8

/-- `OS_MEM_MIN_LEFT_SIZE`: a free node head, with its two list links. -/
def osMemMinLeftSize : Nat := 16

/-- `sizeof(struct OsMemPoolHead)`: five info words, seven bitmap words, 223 list heads and
the link to the next pool. -/
def osMemPoolHeadSize : Nat := 944

def osMemMinPoolSize : Nat := osMemNodeHeadSize + osMemPoolHeadSize

def osMemMinAllocSize : Nat := 8

def osMemAlignSize : Nat := 4

def osMemSmallBucketCount : Nat := 31

def osMemSmallBucketMaxSize : Nat := 128

def osMemLargeStartBucket : Nat := 7

def osMemSli : Nat := 3

/-- `OS_MEM_FREE_LIST_COUNT`, with `OS_MEM_LARGE_BUCKET_COUNT` 24. -/
def osMemFreeListCount : Nat := osMemSmallBucketCount + (24 <<< osMemSli)

/-! ### Size and flags of a node -/

def osMemNodeUsedFlag : Nat := 1 <<< 31

def osMemNodeAlignedFlag : Nat := 1 <<< 30

/-- `OS_MEM_NODE_GET_SIZE`: the size word without its flags. -/
def osMemNodeGetSize (sizeAndFlag : Nat) : Nat :=
  sizeAndFlag &&& (2 ^ 32 - 1 - (osMemNodeUsedFlag ||| osMemNodeAlignedFlag))

def osMemNodeGetUsedFlag (sizeAndFlag : Nat) : Nat := sizeAndFlag &&& osMemNodeUsedFlag

def osMemNodeGetAlignedFlag (sizeAndFlag : Nat) : Nat := sizeAndFlag &&& osMemNodeAlignedFlag

def osMemGapsizeUsedFlag : Nat := 0x80000000

def osMemGapsizeAlignedFlag : Nat := 0x40000000

/-! ### Size classes -/

def osMemLog2 (size : Nat) : Nat := if size > 0 then osMemFLS (BitVec.ofNat 32 size) else 0

/-- The first level: `f = log2(size)`, or the small bucket. -/
def osMemFlGet (size : Nat) : Nat :=
  if size < osMemSmallBucketMaxSize then u32Sub (size >>> 2) 1
  else osMemLog2 size - osMemLargeStartBucket + osMemSmallBucketCount

/-- The second level: `s = (size - 2^f) * 2^SLI / 2^f`. The left shift is made in 32 bits. -/
def osMemSlGet (size fl : Nat) : Nat :=
  if fl < osMemSmallBucketCount ∨ size < osMemSmallBucketMaxSize then 0
  else
    let sl := u32 (size <<< osMemSli) >>> (fl - osMemSmallBucketCount + osMemLargeStartBucket)
    u32Sub sl (1 <<< osMemSli)

def osMemFreeListIndexGet (size : Nat) : Nat :=
  let fl := osMemFlGet size
  if fl < osMemSmallBucketCount then fl
  else
    let sl := osMemSlGet size fl
    u32 (osMemSmallBucketCount + ((fl - osMemSmallBucketCount) <<< osMemSli) + sl)

/-! ### The pool -/

/-- A memory pool: the fields of its head and the words of its memory. `panicked` records
that `LOS_Panic` was called, which does not return. -/
structure Heap where
  pool : Nat
  totalSize : Nat
  waterLine : Nat
  curUsedSize : Nat
  freeListBitmap : Nat → BitVec 32
  freeList : Nat → Nat
  memory : Nat → Nat
  panicked : Bool

namespace Heap

/-- The word at an address. -/
def store (heap : Heap) (address value : Nat) : Heap :=
  { heap with memory := Function.update heap.memory address value }

/-- `node->ptr.prev`. -/
def ptrPrev (heap : Heap) (node : Nat) : Nat := heap.memory node

/-- `node->sizeAndFlag`. -/
def sizeAndFlag (heap : Heap) (node : Nat) : Nat := heap.memory (node + 4)

/-- `prev` of a free node head. -/
def prev (heap : Heap) (node : Nat) : Nat := heap.memory (node + 8)

/-- `next` of a free node head. -/
def next (heap : Heap) (node : Nat) : Nat := heap.memory (node + 12)

def setPtrPrev (heap : Heap) (node value : Nat) : Heap := heap.store node value

def setSizeAndFlag (heap : Heap) (node value : Nat) : Heap := heap.store (node + 4) value

def setPrev (heap : Heap) (node value : Nat) : Heap := heap.store (node + 8) value

def setNext (heap : Heap) (node value : Nat) : Heap := heap.store (node + 12) value

def setFreeList (heap : Heap) (index value : Nat) : Heap :=
  { heap with freeList := Function.update heap.freeList index value }

def nextNode (heap : Heap) (node : Nat) : Nat := node + osMemNodeGetSize (heap.sizeAndFlag node)

def firstNode (heap : Heap) : Nat := heap.pool + osMemPoolHeadSize

/-- `OS_MEM_END_NODE` of the pool. -/
def endNode (heap : Heap) : Nat := heap.pool + heap.totalSize - osMemNodeHeadSize

end Heap

/-! ### Free lists -/

def osMemSetFreeListBit (head : Heap) (index : Nat) : Heap :=
  { head with
    freeListBitmap := Function.update head.freeListBitmap (index >>> 5)
      (head.freeListBitmap (index >>> 5) ||| 1#32 <<< (index &&& 0x1f)) }

def osMemClearFreeListBit (head : Heap) (index : Nat) : Heap :=
  { head with
    freeListBitmap := Function.update head.freeListBitmap (index >>> 5)
      (head.freeListBitmap (index >>> 5) &&& ~~~(1#32 <<< (index &&& 0x1f))) }

def osMemListAdd (pool : Heap) (listIndex node : Nat) : Heap :=
  let firstNode := pool.freeList listIndex
  let pool := if firstNode ≠ 0 then pool.setPrev firstNode node else pool
  let pool := pool.setPrev node 0
  let pool := pool.setNext node firstNode
  let pool := pool.setFreeList listIndex node
  osMemSetFreeListBit pool listIndex

def osMemListDelete (pool : Heap) (listIndex node : Nat) : Heap :=
  if node = pool.freeList listIndex then
    let pool := pool.setFreeList listIndex (pool.next node)
    if pool.next node = 0 then osMemClearFreeListBit pool listIndex
    else pool.setPrev (pool.next node) 0
  else
    let pool := pool.setNext (pool.prev node) (pool.next node)
    if pool.next node ≠ 0 then pool.setPrev (pool.next node) (pool.prev node) else pool

/-- An index past the lists makes `LOS_Panic` stop the system. -/
def osMemFreeNodeAdd (pool : Heap) (node : Nat) : Heap :=
  let index := osMemFreeListIndexGet (pool.sizeAndFlag node)
  if index ≥ osMemFreeListCount then { pool with panicked := true }
  else osMemListAdd pool index node

def osMemFreeNodeDelete (pool : Heap) (node : Nat) : Heap :=
  osMemListDelete pool (osMemFreeListIndexGet (pool.sizeAndFlag node)) node

/-- The loop over one free list, for the first node that is large enough. -/
def osMemFindCurSuitableBlock (poolHead : Heap) (size : Nat) : Nat → Nat → Nat
  | 0, _ => 0
  | fuel + 1, node =>
      if node = 0 then 0
      else if poolHead.sizeAndFlag node ≥ size then node
      else osMemFindCurSuitableBlock poolHead size fuel (poolHead.next node)

def osMemNotEmptyIndexGet (poolHead : Heap) (index : Nat) : Nat :=
  let mask := poolHead.freeListBitmap (index >>> 5) &&& ~~~(1#32 <<< (index &&& 0x1f) - 1#32)
  if mask ≠ 0 then osMemFFS mask + (index &&& (2 ^ 32 - 1 - 0x1f)) else osMemFreeListCount

/-- The loop over the remaining bitmap words, for the first set bit. -/
def osMemScanBitmap (poolHead : Heap) : Nat → Nat → Option Nat
  | 0, _ => none
  | fuel + 1, index =>
      if index < osMemFreeListCount then
        let mask := poolHead.freeListBitmap (index >>> 5)
        if mask ≠ 0 then some (osMemFFS mask + index)
        else osMemScanBitmap poolHead fuel (index + 32)
      else none

/-- The node found, or 0, and the index of its list. The first two exits return the head of
a list without comparing its size. -/
def osMemFindNextSuitableBlock (pool : Heap) (size : Nat) : Nat × Nat :=
  let fl := osMemFlGet size
  let curIndex :=
    if fl < osMemSmallBucketCount then osMemFreeListCount
    else u32 (((fl - osMemSmallBucketCount) <<< osMemSli) + osMemSlGet size fl +
      osMemSmallBucketCount)
  let index := if fl < osMemSmallBucketCount then fl else curIndex + 1
  let tmp := osMemNotEmptyIndexGet pool index
  if tmp ≠ osMemFreeListCount then (pool.freeList tmp, tmp)
  else
    match osMemScanBitmap pool 7 (osMemAlign (index + 1) 32) with
    | some index => (pool.freeList index, index)
    | none =>
        if curIndex = osMemFreeListCount then (0, curIndex)
        else (osMemFindCurSuitableBlock pool size pool.totalSize (pool.freeList curIndex), curIndex)

/-- The node taken out of its free list, or 0. -/
def osMemFreeNodeGet (pool : Heap) (size : Nat) : Heap × Nat :=
  let found := osMemFindNextSuitableBlock pool size
  if found.1 = 0 then (pool, 0) else (osMemListDelete pool found.2 found.1, found.1)

/-! ### Nodes -/

def osMemMergeNode (pool : Heap) (node : Nat) : Heap :=
  let prevNode := pool.ptrPrev node
  let pool := pool.setSizeAndFlag prevNode (pool.sizeAndFlag prevNode + pool.sizeAndFlag node)
  let nextNode := node + pool.sizeAndFlag node
  pool.setPtrPrev nextNode (pool.ptrPrev node)

def osMemSplitNode (pool : Heap) (allocNode allocSize : Nat) : Heap :=
  let newFreeNode := allocNode + allocSize
  let pool := pool.setPtrPrev newFreeNode allocNode
  let pool := pool.setSizeAndFlag newFreeNode (pool.sizeAndFlag allocNode - allocSize)
  let pool := pool.setSizeAndFlag allocNode allocSize
  let nextNode := pool.nextNode newFreeNode
  let pool := pool.setPtrPrev nextNode newFreeNode
  let pool :=
    if osMemNodeGetUsedFlag (pool.sizeAndFlag nextNode) = 0 then
      osMemMergeNode (osMemFreeNodeDelete pool nextNode) nextNode
    else pool
  osMemFreeNodeAdd pool newFreeNode

/-- `OS_MEM_NODE_SET_USED_FLAG` on a node. -/
def setUsedFlag (pool : Heap) (node : Nat) : Heap :=
  pool.setSizeAndFlag node (pool.sizeAndFlag node ||| osMemNodeUsedFlag)

/-- `OS_MEM_NODE_SET_ALIGNED_FLAG` on a node. -/
def setAlignedFlag (pool : Heap) (node : Nat) : Heap :=
  pool.setSizeAndFlag node (pool.sizeAndFlag node ||| osMemNodeAlignedFlag)

def osMemWaterUsedRecord (pool : Heap) (size : Nat) : Heap :=
  let curUsedSize := u32 (pool.curUsedSize + size)
  { pool with
    curUsedSize := curUsedSize
    waterLine := if curUsedSize > pool.waterLine then curUsedSize else pool.waterLine }

/-! ### Initialisation -/

/-- A pool head of zeros over memory with arbitrary contents, one free node and the end
node. -/
def osMemPoolInit (memory : Nat → Nat) (pool size : Nat) : Heap :=
  let heap : Heap :=
    { pool := pool, totalSize := size, waterLine := 0, curUsedSize := 0,
      freeListBitmap := fun _ => 0#32, freeList := fun _ => 0, memory := memory,
      panicked := false }
  let newNode := heap.firstNode
  let heap := heap.setSizeAndFlag newNode (size - osMemPoolHeadSize - osMemNodeHeadSize)
  let heap := heap.setPtrPrev newNode heap.endNode
  let heap := osMemFreeNodeAdd heap newNode
  let endNode := heap.endNode
  let heap := heap.setSizeAndFlag endNode 0
  let heap := heap.setPtrPrev endNode newNode
  let heap := setUsedFlag heap endNode
  let curUsedSize := osMemPoolHeadSize + osMemNodeHeadSize
  { heap with curUsedSize := curUsedSize, waterLine := curUsedSize }

/-- The address test of `OsMemPoolAdd` against one registered pool. -/
def osMemPoolConflict (pool size : Nat) (registered : Nat × Nat) : Bool :=
  let poolEnd := registered.1 + registered.2
  (pool ≤ registered.1 && pool + size > registered.1) ||
    (pool < poolEnd && pool + size ≥ poolEnd)

/-- `LOS_MemInit` with the pools (address and size) registered so far. -/
def losMemInit (registered : List (Nat × Nat)) (memory : Nat → Nat) (pool size : Nat) :
    Option Heap :=
  if pool = 0 ∨ size ≤ osMemMinPoolSize then none
  else if pool &&& (osMemAlignSize - 1) ≠ 0 ∨ size &&& (osMemAlignSize - 1) ≠ 0 then none
  else if registered.any (osMemPoolConflict pool size) then none
  else some (osMemPoolInit memory pool size)

/-! ### Allocation -/

def osMemAlloc (pool : Heap) (size : Nat) : Heap × Nat :=
  let allocSize := osMemAlign (size + osMemNodeHeadSize) osMemAlignSize
  let (pool, allocNode) := osMemFreeNodeGet pool allocSize
  if allocNode = 0 then (pool, 0)
  else
    let pool :=
      if allocSize + osMemMinLeftSize ≤ pool.sizeAndFlag allocNode then
        osMemSplitNode pool allocNode allocSize
      else pool
    let pool := setUsedFlag pool allocNode
    let pool := osMemWaterUsedRecord pool (osMemNodeGetSize (pool.sizeAndFlag allocNode))
    (pool, allocNode + osMemNodeHeadSize)

def losMemAlloc (pool : Heap) (size : Nat) : Heap × Nat :=
  if size = 0 then (pool, 0)
  else
    let size := if size < osMemMinAllocSize then osMemMinAllocSize else size
    if osMemNodeGetUsedFlag size ≠ 0 ∨ osMemNodeGetAlignedFlag size ≠ 0 then (pool, 0)
    else osMemAlloc pool size

def losMemAllocAlign (pool : Heap) (size boundary : Nat) : Heap × Nat :=
  if size = 0 ∨ boundary = 0 ∨ !osMemIsPowTwo boundary ∨ !osMemIsAligned boundary 4 then (pool, 0)
  else
    let size := if size < osMemMinAllocSize then osMemMinAllocSize else size
    if boundary - 4 > 2 ^ 32 - 1 - size then (pool, 0)
    else
      let useSize := size + boundary - 4
      if osMemNodeGetUsedFlag useSize ≠ 0 ∨ osMemNodeGetAlignedFlag useSize ≠ 0 then (pool, 0)
      else
        let allocated := osMemAlloc pool useSize
        let pool := allocated.1
        let ptr := allocated.2
        let alignedPtr := osMemAlign ptr boundary
        if ptr = alignedPtr then (pool, ptr)
        else
          let gapSize := alignedPtr - ptr
          let pool := setAlignedFlag pool (ptr - osMemNodeHeadSize)
          (pool.store (alignedPtr - 4) (gapSize ||| osMemGapsizeAlignedFlag), alignedPtr)

/-! ### Release -/

def osMemAddrValidCheck (pool : Heap) (address : Nat) : Bool :=
  pool.pool + osMemPoolHeadSize ≤ address && address < pool.pool + pool.totalSize

def osMemIsNodeValid (pool : Heap) (node : Nat) : Bool :=
  if ¬(pool.firstNode ≤ node ∧ node ≤ pool.endNode) then false
  else if osMemNodeGetUsedFlag (pool.sizeAndFlag node) ≠ 0 then true
  else osMemAddrValidCheck pool (pool.ptrPrev node)

/-- `OsMemCheckUsedNode` returns `LOS_OK`. -/
def osMemCheckUsedNode (pool : Heap) (node : Nat) : Bool :=
  osMemIsNodeValid pool node &&
    osMemNodeGetUsedFlag (pool.sizeAndFlag node) != 0 &&
    osMemIsNodeValid pool (pool.nextNode node) &&
    pool.ptrPrev (pool.nextNode node) == node &&
    !(node != pool.firstNode &&
      (!osMemIsNodeValid pool (pool.ptrPrev node) || pool.nextNode (pool.ptrPrev node) != node))

/-- The pool after the call and whether it returned `LOS_OK`. -/
def osMemFree (pool : Heap) (node : Nat) : Heap × Bool :=
  if osMemCheckUsedNode pool node then
    let size := osMemNodeGetSize (pool.sizeAndFlag node)
    let pool := { pool with curUsedSize := u32Sub pool.curUsedSize size }
    let pool := pool.setSizeAndFlag node size
    let preNode := pool.ptrPrev node
    let (pool, node) :=
      if preNode ≠ 0 ∧ osMemNodeGetUsedFlag (pool.sizeAndFlag preNode) = 0 then
        (osMemMergeNode (osMemFreeNodeDelete pool preNode) node, preNode)
      else (pool, node)
    let nextNode := pool.nextNode node
    let pool :=
      if nextNode ≠ 0 ∧ osMemNodeGetUsedFlag (pool.sizeAndFlag nextNode) = 0 then
        osMemMergeNode (osMemFreeNodeDelete pool nextNode) nextNode
      else pool
    (osMemFreeNodeAdd pool node, true)
  else (pool, false)

/-- The start of the user area of a node, from a pointer into it, or 0. -/
def osGetRealPtr (pool : Heap) (ptr : Nat) : Nat :=
  let gapSize := pool.memory (ptr - 4)
  if gapSize &&& osMemGapsizeAlignedFlag ≠ 0 ∧ gapSize &&& osMemGapsizeUsedFlag ≠ 0 then 0
  else if gapSize &&& osMemGapsizeAlignedFlag ≠ 0 then
    let gapSize := gapSize &&& (2 ^ 32 - 1 - osMemGapsizeAlignedFlag)
    if gapSize &&& (osMemAlignSize - 1) ≠ 0 ∨ gapSize > ptr - osMemNodeHeadSize - pool.pool then 0
    else ptr - gapSize
  else ptr

def losMemFree (pool : Heap) (ptr : Nat) : Heap × Bool :=
  if ptr = 0 ∨ !osMemIsAligned pool.pool 4 ∨ !osMemIsAligned ptr 4 then (pool, false)
  else
    let ptr := osGetRealPtr pool ptr
    if ptr = 0 then (pool, false) else osMemFree pool (ptr - osMemNodeHeadSize)

/-! ### Reallocation -/

def osMemReAllocSmaller (pool : Heap) (allocSize node nodeSize : Nat) : Heap :=
  let pool := pool.setSizeAndFlag node nodeSize
  let pool :=
    if allocSize + osMemMinLeftSize ≤ nodeSize then
      let pool := osMemSplitNode pool node allocSize
      { pool with curUsedSize := u32Sub pool.curUsedSize (nodeSize - allocSize) }
    else pool
  setUsedFlag pool node

def osMemMergeNodeForReAllocBigger (pool : Heap) (allocSize node nodeSize nextNode : Nat) : Heap :=
  let pool := pool.setSizeAndFlag node nodeSize
  let pool := osMemFreeNodeDelete pool nextNode
  let pool := osMemMergeNode pool nextNode
  let pool :=
    if allocSize + osMemMinLeftSize ≤ pool.sizeAndFlag node then
      osMemSplitNode pool node allocSize
    else pool
  let pool := setUsedFlag pool node
  osMemWaterUsedRecord pool (u32Sub (osMemNodeGetSize (pool.sizeAndFlag node)) nodeSize)

/-- `memcpy_s` of whole words: a count past `destMax` resets the destination and fails. -/
def memcpyS (pool : Heap) (dest destMax src count : Nat) : Heap × Bool :=
  if count ≤ destMax then
    ({ pool with
        memory := fun address =>
          if dest ≤ address ∧ address < dest + count then pool.memory (src + (address - dest))
          else pool.memory address }, true)
  else
    ({ pool with
        memory := fun address =>
          if dest ≤ address ∧ address < dest + destMax then 0 else pool.memory address }, false)

def osMemRealloc (pool : Heap) (ptr node size : Nat) : Heap × Nat :=
  let allocSize := osMemAlign (size + osMemNodeHeadSize) osMemAlignSize
  let nodeSize := osMemNodeGetSize (pool.sizeAndFlag node)
  if nodeSize ≥ allocSize then (osMemReAllocSmaller pool allocSize node nodeSize, ptr)
  else
    let nextNode := pool.nextNode node
    if osMemNodeGetUsedFlag (pool.sizeAndFlag nextNode) = 0 ∧
        pool.sizeAndFlag nextNode + nodeSize ≥ allocSize then
      (osMemMergeNodeForReAllocBigger pool allocSize node nodeSize nextNode, ptr)
    else
      let (pool, tmpPtr) := osMemAlloc pool size
      if tmpPtr ≠ 0 then
        let (pool, copied) := memcpyS pool tmpPtr size ptr (nodeSize - osMemNodeHeadSize)
        if copied then ((osMemFree pool node).1, tmpPtr) else ((losMemFree pool tmpPtr).1, 0)
      else (pool, 0)

def losMemRealloc (pool : Heap) (ptr size : Nat) : Heap × Nat :=
  if osMemNodeGetUsedFlag size ≠ 0 ∨ osMemNodeGetAlignedFlag size ≠ 0 then (pool, 0)
  else if ptr = 0 then losMemAlloc pool size
  else if size = 0 then ((losMemFree pool ptr).1, 0)
  else
    let size := if size < osMemMinAllocSize then osMemMinAllocSize else size
    let ptr := osGetRealPtr pool ptr
    if ptr = 0 then (pool, 0)
    else
      let node := ptr - osMemNodeHeadSize
      if osMemCheckUsedNode pool node then osMemRealloc pool ptr node size else (pool, 0)

end TowerSafe.Memory
