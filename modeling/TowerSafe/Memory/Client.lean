/-
This file proves the allocator's guarantees over runs. A client starts from a pool that
`LOS_MemInit` set up, calls the interface in any order with pointers it holds, and writes
inside the blocks it holds. As long as the pool's first node stays below the flag bits and every
request fits its size classes, the heap invariant holds after every call, and every pointer handed
out designates a block that is large enough, aligned, inside the pool and apart from every other
block and every node head.
-/

import TowerSafe.Library.Transition
import TowerSafe.Memory.Interface

namespace TowerSafe.Memory

open Library List Option
open Function (update update_self update_of_ne)

/-! ### The heap invariant -/

def Heap.isFree (heap : Heap) (node : Nat) : Prop :=
  osMemNodeGetUsedFlag (heap.sizeAndFlag node) = 0

def Heap.nodeSize (heap : Heap) (node : Nat) : Nat := osMemNodeGetSize (heap.sizeAndFlag node)

/-- The nodes reached from `OS_MEM_FIRST_NODE` by `OS_MEM_NEXT_NODE` are these, and the last one is
followed by the end node. -/
def Heap.Walk (heap : Heap) (nodes : List Nat) : Prop :=
  Tiles id heap.nodeSize heap.firstNode nodes heap.endNode

/-- The representation invariant of the allocator. -/
structure HeapInvariant (heap : Heap) (nodes : List Nat) (listed : Nat → List Nat) : Prop where
  walk : heap.Walk nodes
  physical : ∀ node ∈ nodes, heap.ptrPrev (heap.nextNode node) = node
  separate : ∀ node ∈ nodes, heap.nextNode node ∈ nodes →
    ¬(heap.isFree node ∧ heap.isFree (heap.nextNode node))
  linked : ∀ index < osMemFreeListCount,
    Listed heap.prev heap.next 0 (heap.freeList index) (listed index)
  classed : ∀ index < osMemFreeListCount, ∀ node, node ∈ listed index ↔
    node ∈ nodes ∧ heap.isFree node ∧ osMemFreeListIndexGet (heap.nodeSize node) = index
  bitmap : ∀ index < osMemFreeListCount, freeListBit heap index = true ↔ listed index ≠ []

def WellFormed (heap : Heap) : Prop := ∃ nodes listed, HeapInvariant heap nodes listed

variable {region : Region} {heap : Heap} {blocks : List Block}

theorem AtRest.walk (rest : AtRest region heap blocks) : heap.Walk (blocks.map Block.address) := by
  obtain ⟨listed, represents⟩ := rest.represents
  have layout := represents.layout
  unfold Heap.Walk
  rw [layout.firstNode_eq, layout.endNode_eq]
  refine layout.tiles.map_address fun block member => ?_
  unfold Heap.nodeSize
  rw [represents.sizeAndFlag_eq member, size_word (layout.bounds member).2.2.2]

theorem AtRest.heapInvariant (rest : AtRest region heap blocks) :
    ∃ listed, HeapInvariant heap (blocks.map Block.address) listed := by
  obtain ⟨listed, represents⟩ := rest.represents
  have layout := represents.layout
  have nodeSize : ∀ block ∈ blocks, heap.nodeSize block.address = block.size :=
    fun block member => by
      unfold Heap.nodeSize
      rw [represents.sizeAndFlag_eq member, size_word (layout.bounds member).2.2.2]
  have nextNode : ∀ block ∈ blocks, heap.nextNode block.address = block.stop :=
    fun block member => congrArg (block.address + ·) (nodeSize block member)
  have isFree : ∀ block ∈ blocks, heap.isFree block.address ↔ block.kind = .free :=
    fun block member => by
      unfold Heap.isFree
      rw [represents.sizeAndFlag_eq member, usedFlag_word (layout.bounds member).2.2.2]
      exact or_iff_left (rest.settled block member)
  refine ⟨listed, rest.walk, fun node member => ?_,
    fun node member nextMember => ?_, represents.lists.linked, fun index bound node => ?_,
    fun index bound => ?_⟩
  · obtain ⟨block, inBlocks, rfl⟩ := mem_map.mp member
    rw [nextNode block inBlocks]
    exact (layout.headed block inBlocks).back
  · obtain ⟨block, inBlocks, rfl⟩ := mem_map.mp member
    obtain ⟨next, nextInBlocks, same⟩ := mem_map.mp nextMember
    rw [nextNode block inBlocks] at same
    rw [nextNode block inBlocks, ← same, isFree block inBlocks, isFree next nextInBlocks]
    exact fun ⟨free, nextFree⟩ =>
      rest.separate block inBlocks next nextInBlocks free nextFree same.symm
  · rw [represents.classed index bound]
    constructor
    · rintro ⟨size, inBlocks, class'⟩
      refine ⟨mem_map.mpr ⟨_, inBlocks, rfl⟩, (isFree _ inBlocks).mpr rfl, ?_⟩
      rw [nodeSize _ inBlocks]
      exact class'
    · rintro ⟨member, free, class'⟩
      obtain ⟨⟨address, size, kind⟩, inBlocks, rfl⟩ := mem_map.mp member
      obtain rfl : kind = .free := (isFree _ inBlocks).mp free
      refine ⟨size, inBlocks, ?_⟩
      rw [nodeSize _ inBlocks] at class'
      exact class'
  · rw [represents.lists.bitmap index (Nat.le_of_lt bound)]
    exact and_iff_right bound

theorem AtRest.wellFormed (rest : AtRest region heap blocks) : WellFormed heap :=
  ⟨_, rest.heapInvariant⟩

/-! ### Initialisation -/

/-- The region of a pool that `LOS_MemInit` accepts, when it is a region of the address space,
holds a full free-node head and its first node stays below the flag bits. -/
theorem exists_region {registered : List (Nat × Nat)} {memory : Nat → Nat} {pool size : Nat}
    (accepted : losMemInit registered memory pool size = some heap)
    (roomy : osMemMinPoolSize + osMemMinLeftSize ≤ size)
    (bounded : size < 2 ^ 30 + osMemMinPoolSize) (inside : pool + size ≤ 2 ^ 32) :
    ∃ region : Region, region.pool = pool ∧ region.size = size ∧
      heap = osMemPoolInit memory pool size := by
  unfold losMemInit at accepted
  by_cases small : pool = 0 ∨ size ≤ osMemMinPoolSize
  · rw [if_pos small] at accepted
    exact nomatch accepted
  rw [if_neg small] at accepted
  by_cases aligned : pool &&& (osMemAlignSize - 1) ≠ 0 ∨ size &&& (osMemAlignSize - 1) ≠ 0
  · rw [if_pos aligned] at accepted
    exact nomatch accepted
  rw [if_neg aligned] at accepted
  by_cases conflict : registered.any (osMemPoolConflict pool size) = true
  · rw [if_pos conflict] at accepted
    exact nomatch accepted
  rw [if_neg conflict] at accepted
  rw [not_or, not_not, not_not] at aligned
  have poolWhole : pool % 4 = 0 := (Nat.and_two_pow_sub_one_eq_mod pool 2).symm.trans aligned.1
  have sizeWhole : size % 4 = 0 := (Nat.and_two_pow_sub_one_eq_mod size 2).symm.trans aligned.2
  exact ⟨⟨pool, size, Nat.pos_of_ne_zero (not_or.mp small).1, Nat.dvd_of_mod_eq_zero poolWhole,
    Nat.dvd_of_mod_eq_zero sizeWhole, roomy, bounded, inside⟩, rfl, rfl,
    (some.inj accepted).symm⟩

theorem osMemPoolInit_atRest (region : Region) (memory : Nat → Nat) :
    AtRest region (osMemPoolInit memory region.pool region.size)
      [⟨region.first, region.last - region.first, .free⟩] := by
  obtain ⟨firstReal, firstWhole, lastWhole, room, span, top⟩ := region.facts
  obtain ⟨total, totalEq⟩ : ∃ total, total = region.last - region.first := ⟨_, rfl⟩
  rw [← totalEq]
  let empty : Heap :=
    { pool := region.pool, totalSize := region.size, waterLine := 0, curUsedSize := 0,
      freeListBitmap := fun _ => 0#32, freeList := fun _ => 0, memory := memory,
      panicked := false }
  let bare := (empty.setSizeAndFlag region.first (region.size - 944 - 8)).setPtrPrev region.first
    region.last
  have sizeEq : region.size - 944 - 8 = total := by
    have firstEq : region.first = region.pool + 944 := rfl
    have lastEq : region.last = region.pool + region.size - 8 := rfl
    omega
  have bareMemory : bare.memory = update (update memory (region.first + 4)
      (region.size - 944 - 8)) region.first region.last := rfl
  have bareWord : bare.sizeAndFlag region.first = total := by
    unfold Heap.sizeAndFlag
    rw [bareMemory, update_of_ne (by omega), update_self, sizeEq]
  have bound : osMemFreeListIndexGet total < osMemFreeListCount :=
    osMemFreeListIndexGet_lt (by omega) (by omega)
  have noLists : FreeLists bare fun _ => [] := by
    refine ⟨fun _ _ => ⟨rfl, nofun, nodup_nil⟩, fun index _ => ?_,
      fun _ _ _ _ _ member => nomatch member⟩
    refine iff_of_false (fun set => ?_) fun ⟨_, nonempty⟩ => nonempty rfl
    exact absurd set (by
      show ¬(0#32).getLsbD (index &&& 0x1f) = true
      rw [BitVec.getLsbD_zero]
      exact nofun)
  have fresh : ∀ index < osMemFreeListCount, ∀ other ∈ (fun _ => [] : Nat → List Nat) index,
      Apart region.first osMemMinLeftSize other osMemMinLeftSize := fun _ _ _ member =>
    nomatch member
  have added := noLists.add bound (Nat.pos_iff_ne_zero.mp firstReal) fresh
  let listedHeap := osMemListAdd bare (osMemFreeListIndexGet total) region.first
  have frame : ∀ place, place ≠ region.first + 8 → place ≠ region.first + 12 →
      listedHeap.memory place = bare.memory place := fun place notPrev notNext => by
    refine noLists.add_frame bound (fresh _ bound) fun ⟨node, member, which⟩ => ?_
    rw [mem_singleton.mp member] at which
    exact which.elim notPrev notNext
  let memory' := update (update (update listedHeap.memory
    (region.last + 4) 0) region.last region.first) (region.last + 4) (2 ^ 31)
  have result : osMemPoolInit memory region.pool region.size =
      { listedHeap with memory := memory', curUsedSize := 952, waterLine := 952 } := by
    have put : osMemFreeNodeAdd bare region.first = listedHeap := by
      unfold osMemFreeNodeAdd
      rw [bareWord]
      exact if_neg (Nat.not_le.mpr bound)
    have endNode : listedHeap.endNode = region.last := by
      rfl
    let closed := (listedHeap.setSizeAndFlag region.last 0).setPtrPrev region.last region.first
    have closedWord : closed.sizeAndFlag region.last = 0 :=
      (update_of_ne (show region.last + 4 ≠ region.last by omega) _ _).trans
        (update_self _ _ _)
    have flagged : setUsedFlag closed region.last = closed.setSizeAndFlag region.last (2 ^ 31) := by
      unfold setUsedFlag
      rw [closedWord]
      rfl
    have unfolded : osMemPoolInit memory region.pool region.size =
        { setUsedFlag (((osMemFreeNodeAdd bare region.first).setSizeAndFlag
          (osMemFreeNodeAdd bare region.first).endNode 0).setPtrPrev
          (osMemFreeNodeAdd bare region.first).endNode region.first)
          (osMemFreeNodeAdd bare region.first).endNode with
          curUsedSize := 952, waterLine := 952 } := rfl
    rw [unfolded, put, endNode]
    rw [flagged]
    rfl
  obtain ⟨samePool, sameSize, samePanic⟩ :=
    Represents.osMemListAdd_same bare (osMemFreeListIndexGet total) region.first
  have atWord : memory' (region.first + 4) = total := by
    unfold memory'
    rw [update_of_ne (by omega), update_of_ne (by omega),
      update_of_ne (by omega), frame _ (by omega) (by omega)]
    exact bareWord
  have atLast : memory' region.last = region.first := by
    unfold memory'
    rw [update_of_ne (by omega), update_self]
  have atFirst : memory' region.first = region.last := by
    unfold memory'
    rw [update_of_ne (by omega), update_of_ne (by omega),
      update_of_ne (by omega), frame _ (by omega) (by omega), bareMemory,
      update_self]
  have atEnd : memory' (region.last + 4) = 2 ^ 31 := by
    unfold memory'
    rw [update_self]
  have stopEq : Block.stop ⟨region.first, total, .free⟩ = region.last :=
    show region.first + total = region.last by omega
  rw [result]
  refine ⟨⟨update (fun _ => []) (osMemFreeListIndexGet total) [region.first], ⟨samePool,
    sameSize, samePanic, ⟨rfl, show 0 < total by omega, stopEq⟩, fun block member => ?_, atFirst,
    atEnd⟩, ?_, fun index indexBound node => ?_⟩, fun block member => ?_,
    fun first firstMember second secondMember _ _ => ?_⟩
  · obtain rfl := mem_singleton.mp member
    refine ⟨show 16 ≤ total by omega, show 4 ∣ total by omega, atWord, ?_⟩
    rw [stopEq]
    exact atLast
  · refine added.congr rfl rfl fun index indexBound place isLink => ?_
    obtain ⟨node, member, which⟩ := isLink
    have same : node = region.first := by
      by_cases sameIndex : index = osMemFreeListIndexGet total
      · rw [sameIndex, update_self] at member
        exact mem_singleton.mp member
      · rw [update_of_ne sameIndex] at member
        exact nomatch member
    have away : place ≠ region.last ∧ place ≠ region.last + 4 := by omega
    exact (update_of_ne away.2 _ _).trans
      ((update_of_ne away.1 _ _).trans (update_of_ne away.2 _ _))
  · by_cases sameIndex : index = osMemFreeListIndexGet total
    · rw [sameIndex, update_self, mem_singleton]
      constructor
      · rintro rfl
        exact ⟨total, mem_singleton_self _, rfl⟩
      · rintro ⟨size, member, -⟩
        exact congrArg Block.address (mem_singleton.mp member)
    · rw [update_of_ne sameIndex]
      refine iff_of_false (fun member => nomatch member) ?_
      rintro ⟨size, member, class'⟩
      have sameSize : size = total := congrArg Block.size (mem_singleton.mp member)
      exact sameIndex (by rw [← class', sameSize])
  · rw [mem_singleton.mp member]
    exact nofun
  · rw [mem_singleton.mp firstMember, mem_singleton.mp secondMember, stopEq]
    show region.last ≠ region.first
    omega

/-- One free node is between the pool head and the end node, in the pool: it holds its links, its
size has no flag, and it is in the list of its class. -/
structure SingleFreeNode (heap : Heap) (pool size : Nat) : Prop where
  samePool : heap.pool = pool
  sameSize : heap.totalSize = size
  invariant : ∃ listed, HeapInvariant heap [heap.firstNode] listed
  free : heap.isFree heap.firstNode
  unaligned : osMemNodeGetAlignedFlag (heap.sizeAndFlag heap.firstNode) = 0
  links : heap.firstNode + osMemMinLeftSize ≤ heap.endNode
  inside : heap.endNode + osMemNodeHeadSize ≤ pool + size
  ending : ¬heap.isFree heap.endNode

theorem AtRest.singleFreeNode
    (rest : AtRest region heap [⟨region.first, region.last - region.first, .free⟩]) :
    SingleFreeNode heap region.pool region.size := by
  obtain ⟨listed, represents⟩ := rest.represents
  have layout := represents.layout
  obtain ⟨-, -, -, room, span, -⟩ := region.facts
  have word : heap.sizeAndFlag region.first = region.last - region.first :=
    (represents.sizeAndFlag_eq (mem_singleton_self _)).trans (Nat.add_zero _)
  have lastEq : region.last = region.pool + region.size - 8 := rfl
  refine ⟨layout.pool, layout.totalSize, layout.firstNode_eq ▸ rest.heapInvariant, ?_, ?_, ?_, ?_, ?_⟩
  · rw [layout.firstNode_eq, Heap.isFree, osMemNodeGetUsedFlag_eq_zero_iff]
    omega
  · rw [layout.firstNode_eq, osMemNodeGetAlignedFlag_eq_zero_iff]
    omega
  · rw [layout.firstNode_eq, layout.endNode_eq]
    exact room
  · rw [layout.endNode_eq, osMemNodeHeadSize]
    omega
  · rw [layout.endNode_eq, Heap.isFree, Heap.sizeAndFlag, layout.ending]
    decide

/-- `LOS_MemInit` sets up a single free node exactly when the pool holds a full free-node head and
the size of the node does not reach the flag bits. -/
theorem losMemInit_establishes_iff {registered : List (Nat × Nat)} {memory : Nat → Nat}
    {pool size : Nat} (accepted : losMemInit registered memory pool size = some heap)
    (inside : pool + size ≤ 2 ^ 32) : SingleFreeNode heap pool size ↔
      osMemMinPoolSize + osMemMinLeftSize ≤ size ∧ size < 2 ^ 30 + osMemMinPoolSize := by
  constructor
  · rintro ⟨samePool, sameSize, ⟨listed, invariant⟩, -, -, links, -, -⟩
    obtain ⟨-, -, reaches⟩ := invariant.walk
    have reaches : heap.firstNode + heap.nodeSize heap.firstNode = heap.endNode := reaches
    have below : heap.nodeSize heap.firstNode < 2 ^ 30 := by
      rw [Heap.nodeSize, osMemNodeGetSize_eq]
      exact Nat.mod_lt _ (by decide)
    have firstEq : heap.firstNode = pool + 944 := by rw [← samePool]; rfl
    have lastEq : heap.endNode = pool + size - 8 := by rw [← samePool, ← sameSize]; rfl
    have least : osMemMinPoolSize = 952 := rfl
    omega
  · rintro ⟨roomy, bounded⟩
    obtain ⟨region, rfl, rfl, rfl⟩ := exists_region accepted roomy bounded inside
    exact (osMemPoolInit_atRest region memory).singleFreeNode

theorem losMemInit_establishes_iff_sample :
    ∃ heap, losMemInit [] (fun _ => 0) 4096 968 = some heap ∧ SingleFreeNode heap 4096 968 :=
  ⟨_, rfl, (@losMemInit_establishes_iff _ [] _ _ _ rfl (by decide)).mpr ⟨by decide, by decide⟩⟩

/-- The smallest pool that is accepted leaves four bytes for the node. -/
theorem losMemInit_node_too_small :
    ¬∀ registered memory pool size heap, losMemInit registered memory pool size = some heap →
      pool + size ≤ 2 ^ 32 → SingleFreeNode heap pool size := by
  intro claim
  have links := (claim [] (fun _ => 0) 4096 956 _ rfl (by decide)).links
  exact absurd links (by decide +kernel)

/-! ### Clients -/

/-- A pool and the blocks its client holds: pointer and requested size. -/
structure Client where
  heap : Heap
  live : List (Nat × Nat)

/-- The calls of the interface, and a write of one word by the client. -/
inductive Call where
  | alloc (size : Nat)
  | allocAlign (size boundary : Nat)
  | realloc (pointer size : Nat)
  | free (pointer : Nat)
  | write (place value : Nat)

namespace Client

def holds (client : Client) (pointer : Nat) : Bool := client.live.any fun entry => entry.1 == pointer

/-- The word is in a block the client holds. -/
def owns (client : Client) (place : Nat) : Bool :=
  client.live.any fun entry => entry.1 ≤ place && place < entry.1 + entry.2

def drop (live : List (Nat × Nat)) (pointer : Nat) : List (Nat × Nat) :=
  live.filter fun entry => entry.1 != pointer

/-- The blocks held after an allocating call. -/
def keep (live : List (Nat × Nat)) (pointer size : Nat) : List (Nat × Nat) :=
  if pointer = 0 then live else (pointer, size) :: live

/-- One call. The sizes are `UINT32`s; `LOS_MemFree` and `LOS_MemRealloc` get a pointer the client
holds, and a write stays in the blocks it holds. -/
def step (client : Client) : Call → Option Client
  | .alloc size =>
      if size < 2 ^ 32 then
        let result := losMemAlloc client.heap size
        some ⟨result.1, keep client.live result.2 size⟩
      else none
  | .allocAlign size boundary =>
      if size < 2 ^ 32 ∧ boundary < 2 ^ 32 then
        let result := losMemAllocAlign client.heap size boundary
        some ⟨result.1, keep client.live result.2 size⟩
      else none
  | .realloc pointer size =>
      if size < 2 ^ 32 ∧ (pointer = 0 ∨ client.holds pointer = true) then
        let result := losMemRealloc client.heap pointer size
        if pointer ≠ 0 ∧ (size = 0 ∨ result.2 ≠ 0) then
          some ⟨result.1, keep (drop client.live pointer) result.2 size⟩
        else some ⟨result.1, keep client.live result.2 size⟩
      else none
  | .free pointer =>
      if client.holds pointer then
        let result := losMemFree client.heap pointer
        some ⟨result.1, if result.2 then drop client.live pointer else client.live⟩
      else none
  | .write place value =>
      if 4 ∣ place ∧ value < 2 ^ 32 ∧ client.owns place = true then
        some { client with heap := client.heap.store place value }
      else none

/-- The rounded size a call looks for: the size, at least the minimum, plus the boundary less a
word, plus the node head, rounded up to the word. -/
def request : Call → Option Nat
  | .alloc size => some (allocSizeOf (atLeastMinimum size))
  | .allocAlign size boundary => some (allocSizeOf (atLeastMinimum size + boundary - 4))
  | .realloc _ size => some (allocSizeOf (atLeastMinimum size))
  | .free _ => none
  | .write _ _ => none

/-- The request of the call, if it makes one, is below 2^29 or fits the size classes of the
heap. -/
def Fits (client : Client) (call : Call) : Prop :=
  ∀ size, request call = some size → size < 2 ^ 29 ∨ ClassFits client.heap size

/-- The heap is at rest, and every block the client holds is owned by a node of its own. -/
structure Consistent (region : Region) (client : Client) (blocks : List Block) : Prop where
  rest : AtRest region client.heap blocks
  owned : ∀ entry ∈ client.live, ∃ block ∈ blocks, Owns client.heap block entry.1 entry.2
  exclusive : ∀ first ∈ client.live, ∀ second ∈ client.live, ∀ block ∈ blocks,
    Owns client.heap block first.1 first.2 → Owns client.heap block second.1 second.2 →
      first = second

end Client

theorem AtRest.owner_unique {first second : Block} {pointer size size' : Nat}
    {heap' : Heap} (rest : AtRest region heap blocks) (firstMember : first ∈ blocks)
    (secondMember : second ∈ blocks) (firstOwns : Owns heap first pointer size)
    (secondOwns : Owns heap' second pointer size') : first = second := by
  obtain ⟨listed, represents⟩ := rest.represents
  have firstLower := firstOwns.lower
  have secondLower := secondOwns.lower
  have firstFits := firstOwns.fits
  have secondFits := secondOwns.fits
  rcases represents.layout.apart firstMember secondMember with same | before | after
  · exact same
  · omega
  · omega

namespace Client

variable {client : Client} {others : List Block}

/-- The heap of a call and the blocks the client still holds, each with its owner. -/
structure Holds (heap : Heap) (others : List Block) (live : List (Nat × Nat)) : Prop where
  owned : ∀ entry ∈ live, ∃ block ∈ others, Owns heap block entry.1 entry.2
  exclusive : ∀ first ∈ live, ∀ second ∈ live, ∀ block ∈ others,
    Owns heap block first.1 first.2 → Owns heap block second.1 second.2 → first = second

theorem Consistent.toHolds {client : Client} (consistent : Consistent region client blocks) :
    Holds client.heap blocks client.live := ⟨consistent.owned, consistent.exclusive⟩

theorem Holds.serve {heap : Heap} {live : List (Nat × Nat)} {result : Heap × Nat}
    {size : Nat} (holds : Holds heap others live) {blocks' : List Block} {block : Block}
    (granted : Granted region heap result.1 others blocks' block)
    (owns : Owns result.1 block result.2 size) :
    ∃ blocks', Consistent region ⟨result.1, (result.2, size) :: live⟩ blocks' := by
  have keepOwner : ∀ entry ∈ live, ∃ owner ∈ others, owner ∈ blocks' ∧ owner ≠ block ∧
      Owns heap owner entry.1 entry.2 ∧ Owns result.1 owner entry.1 entry.2 := fun entry member => by
    obtain ⟨owner, inOthers, ownsEntry⟩ := holds.owned entry member
    have held := ownsEntry.held
    have fits := ownsEntry.fits
    refine ⟨owner, inOthers, (granted.members owner held).mpr (.inl inOthers), fun same => ?_,
      ownsEntry, ownsEntry.congr fun place lower upper => ?_⟩
    · exact granted.fresh owner inOthers held (congrArg Block.address same)
    · exact granted.kept owner inOthers held place lower (by omega)
  have newOnly : ∀ entry ∈ live, ∀ shared ∈ blocks', Owns result.1 shared entry.1 entry.2 →
      Owns result.1 shared result.2 size → False := fun entry member shared inBlocks first second => by
    obtain ⟨owner, -, inBlocks', differ, -, ownsEntry⟩ := keepOwner entry member
    have sharedOwner := granted.rest.owner_unique inBlocks inBlocks' first ownsEntry
    have sharedBlock := granted.rest.owner_unique inBlocks granted.member second owns
    exact differ (sharedOwner.symm.trans sharedBlock)
  refine ⟨blocks', granted.rest, fun entry member => ?_,
    fun first firstMember second secondMember shared inBlocks firstOwns secondOwns => ?_⟩
  · rcases mem_cons.mp member with rfl | old
    · exact ⟨block, granted.member, owns⟩
    · obtain ⟨owner, -, inBlocks', -, -, ownsEntry⟩ := keepOwner entry old
      exact ⟨owner, inBlocks', ownsEntry⟩
  · rcases mem_cons.mp firstMember with rfl | firstOld
    · rcases mem_cons.mp secondMember with rfl | secondOld
      · rfl
      · exact (newOnly second secondOld shared inBlocks secondOwns firstOwns).elim
    rcases mem_cons.mp secondMember with rfl | secondOld
    · exact (newOnly first firstOld shared inBlocks firstOwns secondOwns).elim
    obtain ⟨owner, inOthers, inBlocks', -, before, after⟩ := keepOwner first firstOld
    obtain ⟨owner', inOthers', inBlocks'', -, before', after'⟩ := keepOwner second secondOld
    have same := granted.rest.owner_unique inBlocks inBlocks' firstOwns after
    have same' := granted.rest.owner_unique inBlocks inBlocks'' secondOwns after'
    obtain rfl : owner = owner' := same.symm.trans same'
    exact holds.exclusive first firstOld second secondOld owner inOthers before before'

theorem Consistent.drop {client : Client} (consistent : Consistent region client blocks)
    {pointer size : Nat} (entry : (pointer, size) ∈ client.live) {block : Block}
    (member : block ∈ blocks) (owns : Owns client.heap block pointer size)
    (around : ∀ other, other ∈ others ↔ other ∈ blocks ∧ other ≠ block) :
    Holds client.heap others (drop client.live pointer) := by
  have old : ∀ entry ∈ Client.drop client.live pointer,
      entry ∈ client.live ∧ entry.1 ≠ pointer := fun entry inDrop => by
    obtain ⟨inLive, differ⟩ := mem_filter.mp inDrop
    exact ⟨inLive, bne_iff_ne.mp differ⟩
  refine ⟨fun other inDrop => ?_, fun first firstMember second secondMember shared inOthers =>
    consistent.exclusive first (old first firstMember).1 second (old second secondMember).1 shared
      ((around shared).mp inOthers).1⟩
  obtain ⟨inLive, differ⟩ := old other inDrop
  obtain ⟨owner, inBlocks, ownsOther⟩ := consistent.owned other inLive
  refine ⟨owner, (around owner).mpr ⟨inBlocks, fun same => differ ?_⟩, ownsOther⟩
  rw [same] at ownsOther
  exact congrArg Prod.fst (consistent.exclusive other inLive _ entry block member ownsOther owns)

theorem Consistent.alloc {client : Client} (consistent : Consistent region client blocks)
    {result : Heap × Nat} {size boundary : Nat}
    (serves : Serves region client.heap blocks result size boundary) :
    ∃ blocks', Consistent region ⟨result.1, keep client.live result.2 size⟩ blocks' := by
  rcases serves with rfl | ⟨blocks', block, granted, owns, -⟩
  · exact ⟨blocks, consistent⟩
  have real : result.2 ≠ 0 := by
    have lower := owns.lower
    omega
  unfold keep
  rw [if_neg real]
  exact consistent.toHolds.serve granted owns

theorem Consistent.owner {client : Client} (consistent : Consistent region client blocks)
    {pointer : Nat} (held : client.holds pointer = true) :
    ∃ size block, (pointer, size) ∈ client.live ∧ block ∈ blocks ∧
      Owns client.heap block pointer size := by
  obtain ⟨⟨pointer', size⟩, inLive, same⟩ := any_eq_true.mp held
  obtain rfl : pointer' = pointer := beq_iff_eq.mp same
  obtain ⟨block, member, owns⟩ := consistent.owned _ inLive
  exact ⟨size, block, inLive, member, owns⟩

theorem Consistent.free {client : Client} (consistent : Consistent region client blocks)
    {pointer : Nat} (held : client.holds pointer = true) :
    (losMemFree client.heap pointer).2 = true ∧ ∃ blocks',
      Consistent region ⟨(losMemFree client.heap pointer).1, Client.drop client.live pointer⟩
        blocks' ∧
      ∃ size, ∃ block ∈ blocks, Owns client.heap block pointer size ∧
        Removed region client.heap (losMemFree client.heap pointer).1 blocks blocks' block := by
  obtain ⟨size, block, inLive, member, owns⟩ := consistent.owner held
  obtain ⟨freed, blocks', removed⟩ := consistent.rest.losMemFree member owns
  obtain ⟨front, back, rfl⟩ := append_of_mem member
  obtain ⟨listed, represents⟩ := consistent.rest.represents
  have around := members_around represents.layout
  have holds := consistent.drop inLive member owns around
  have still : ∀ owner ∈ front ++ back, owner.kind ≠ .free → owner ∈ blocks' :=
    fun owner inAround ownerHeld => (removed.members owner ownerHeld).mpr ((around owner).mp inAround)
  have moved : ∀ owner ∈ front ++ back, ∀ {pointer size}, Owns client.heap owner pointer size →
      Owns (losMemFree client.heap _).1 owner pointer size := fun owner inAround _ _ ownsOther => by
    have fits := ownsOther.fits
    exact ownsOther.congr fun place lower upper => removed.kept owner
      (still owner inAround ownsOther.held) ownsOther.held place lower (by omega)
  have origin : ∀ first ∈ Client.drop client.live pointer, ∃ owner ∈ front ++ back,
      Owns client.heap owner first.1 first.2 := holds.owned
  refine ⟨freed, blocks', ⟨removed.rest, fun entry inDrop => ?_,
    fun first firstMember second secondMember shared inBlocks firstOwns secondOwns => ?_⟩,
    size, block, member, owns, removed⟩
  · obtain ⟨owner, inAround, ownsEntry⟩ := holds.owned entry inDrop
    exact ⟨owner, still owner inAround ownsEntry.held, moved owner inAround ownsEntry⟩
  · obtain ⟨owner, inAround, ownsFirst⟩ := origin first firstMember
    obtain ⟨owner', inAround', ownsSecond⟩ := origin second secondMember
    have same := removed.rest.owner_unique inBlocks (still owner inAround ownsFirst.held) firstOwns
      ownsFirst
    have same' := removed.rest.owner_unique inBlocks (still owner' inAround' ownsSecond.held)
      secondOwns ownsSecond
    obtain rfl : owner = owner' := same.symm.trans same'
    exact holds.exclusive first firstMember second secondMember owner inAround ownsFirst ownsSecond

theorem Consistent.realloc {client : Client} (consistent : Consistent region client blocks)
    {pointer newSize : Nat} (held : client.holds pointer = true) (word : newSize < 2 ^ 32)
    (positive : newSize ≠ 0) (fits : ClassFits client.heap (allocSizeOf (atLeastMinimum newSize))) :
    (losMemRealloc client.heap pointer newSize).2 = 0 ∧
        (losMemRealloc client.heap pointer newSize).1 = client.heap ∨
      (losMemRealloc client.heap pointer newSize).2 ≠ 0 ∧ ∃ blocks',
      Consistent region ⟨(losMemRealloc client.heap pointer newSize).1,
        ((losMemRealloc client.heap pointer newSize).2, newSize) ::
          Client.drop client.live pointer⟩ blocks' := by
  obtain ⟨size, block, inLive, member, owns⟩ := consistent.owner held
  obtain ⟨front, back, rfl⟩ := append_of_mem member
  obtain ⟨listed, represents⟩ := consistent.rest.represents
  have holds := consistent.drop inLive member owns (members_around represents.layout)
  obtain ⟨aligned, kind⟩ := owns.kind
  have rest := consistent.rest
  rw [kind] at rest owns
  rcases rest.losMemRealloc owns word positive fits with same | ⟨blocks', block', granted, owns', -⟩
  · exact .inl ⟨congrArg Prod.snd same, congrArg Prod.fst same⟩
  · have lower := owns'.lower
    exact .inr ⟨by omega, holds.serve granted owns'⟩

theorem Consistent.write {client : Client} (consistent : Consistent region client blocks)
    {place value : Nat} (owned : client.owns place = true) :
    ∃ blocks', Consistent region { client with heap := client.heap.store place value } blocks' := by
  obtain ⟨⟨pointer, size⟩, inLive, inside⟩ := any_eq_true.mp owned
  obtain ⟨lower, upper⟩ := Bool.and_eq_true_iff.mp inside
  rw [decide_eq_true_iff] at lower upper
  obtain ⟨block, member, owns⟩ := consistent.owned _ inLive
  have fits := owns.fits
  have blockLower := owns.lower
  have outside : ∀ other, other < block.address + 8 ∨ block.stop ≤ other →
      update client.heap.memory place value other = client.heap.memory other :=
    fun other away => update_of_ne (by omega) _ _
  obtain ⟨rest, kept⟩ := consistent.rest.scribble member owns.held outside
  have same : ∀ owner ∈ blocks, ∀ entry ∈ client.live, ∀ other,
      owner.address + 8 ≤ other → other < entry.1 → entry.1 + entry.2 ≤ owner.stop →
      Owns client.heap owner entry.1 entry.2 ∨
        Owns (client.heap.store place value) owner entry.1 entry.2 →
      (client.heap.store place value).memory other = client.heap.memory other := by
    intro owner inBlocks entry entryLive other low high fitsOwner which
    by_cases equal : owner = block
    · subst equal
      have single : entry = (pointer, size) := by
        obtain ⟨owner', inBlocks', ownsEntry⟩ := consistent.owned entry entryLive
        have unique : owner' = owner := by
          rcases which with before | after
          · exact consistent.rest.owner_unique inBlocks' inBlocks ownsEntry before
          · exact consistent.rest.owner_unique inBlocks' inBlocks ownsEntry after
        rw [unique] at ownsEntry
        exact consistent.exclusive entry entryLive _ inLive owner member ownsEntry owns
      rw [single] at high
      exact update_of_ne (by omega) _ _
    · exact kept owner inBlocks equal other (by omega) (by omega)
  refine ⟨blocks, rest, fun entry entryLive => ?_,
    fun first firstLive second secondLive shared inBlocks firstOwns secondOwns => ?_⟩
  · obtain ⟨owner, inBlocks, ownsEntry⟩ := consistent.owned entry entryLive
    exact ⟨owner, inBlocks, ownsEntry.congr fun other low high =>
      same owner inBlocks entry entryLive other low high ownsEntry.fits (.inl ownsEntry)⟩
  · refine consistent.exclusive first firstLive second secondLive shared inBlocks ?_ ?_
    · exact firstOwns.congr fun other low high =>
        (same shared inBlocks first firstLive other low high firstOwns.fits (.inr firstOwns)).symm
    · exact secondOwns.congr fun other low high =>
        (same shared inBlocks second secondLive other low high secondOwns.fits
          (.inr secondOwns)).symm

theorem Consistent.step {client next : Client} {call : Call}
    (consistent : Consistent region client blocks) (meets : client.Fits call)
    (result : client.step call = some next) : ∃ blocks', Consistent region next blocks' := by
  have fits : ∀ size, request call = some size → ClassFits client.heap size :=
    fun size asked => (meets size asked).elim consistent.rest.classFits id
  cases call with
  | alloc size =>
    obtain ⟨word, same⟩ := ite_none_right_eq_some.mp result
    obtain rfl := some.inj same
    exact consistent.alloc (consistent.rest.losMemAlloc word (fits _ rfl))
  | allocAlign size boundary =>
    obtain ⟨⟨word, -⟩, same⟩ := ite_none_right_eq_some.mp result
    obtain rfl := some.inj same
    exact consistent.alloc (consistent.rest.losMemAllocAlign word (fits _ rfl))
  | realloc pointer size =>
    obtain ⟨⟨word, legal⟩, same⟩ := ite_none_right_eq_some.mp result
    obtain rfl := some.inj ((apply_ite some _ _ _).trans same)
    by_cases null : pointer = 0
    · subst null
      have serves : Serves region client.heap blocks (losMemRealloc client.heap 0 size) size 4 := by
        by_cases flagged : osMemNodeGetUsedFlag size ≠ 0 ∨ osMemNodeGetAlignedFlag size ≠ 0
        · exact .inl (if_pos flagged)
        have alloc : losMemRealloc client.heap 0 size = losMemAlloc client.heap size := by
          unfold losMemRealloc
          rw [if_neg flagged, if_pos rfl]
        rw [alloc]
        exact consistent.rest.losMemAlloc word (fits _ rfl)
      exact consistent.alloc serves
    · have held : client.holds pointer = true := legal.resolve_left null
      by_cases zero : size = 0
      · subst zero
        have release : losMemRealloc client.heap pointer 0 =
            ((losMemFree client.heap pointer).1, 0) := by
          unfold losMemRealloc
          rw [if_neg (by decide), if_neg null, if_pos rfl]
        rw [if_pos ⟨null, .inl rfl⟩, release]
        obtain ⟨-, blocks', consistent', -⟩ := consistent.free held
        exact ⟨blocks', consistent'⟩
      · rcases consistent.realloc held word zero (fits _ rfl) with
          ⟨none, unchanged⟩ | ⟨real, consistent'⟩
        · rw [if_neg fun both => both.2.elim zero fun real => real none, none, unchanged]
          exact ⟨blocks, consistent⟩
        rw [if_pos ⟨null, .inr real⟩]
        unfold keep
        rw [if_neg real]
        exact consistent'
  | free pointer =>
    obtain ⟨held, same⟩ := ite_none_right_eq_some.mp result
    obtain rfl := some.inj same
    obtain ⟨freed, blocks', consistent', -⟩ := consistent.free held
    rw [if_pos freed]
    exact ⟨blocks', consistent'⟩
  | write place value =>
    obtain ⟨⟨-, -, owned⟩, same⟩ := ite_none_right_eq_some.mp result
    obtain rfl := some.inj same
    exact consistent.write owned

/-! ### Runs -/

/-- A client of a pool of `size` bytes that `LOS_MemInit` just accepted. The pool is a piece of
the address space and exceeds the pool head plus two full free-node heads. -/
def SetUp (client : Client) (size : Nat) : Prop :=
  ∃ registered memory pool, losMemInit registered memory pool size = some client.heap ∧
    client.live = [] ∧ osMemPoolHeadSize + 2 * osMemMinLeftSize < size ∧ pool + size ≤ 2 ^ 32

def Fresh (client : Client) : Prop := ∃ size, client.SetUp size

/-- A client of a fresh pool whose first node's size stays below the flag bits. -/
def FreshBelowFlags (client : Client) : Prop :=
  ∃ size, client.SetUp size ∧ size < 2 ^ 30 + osMemMinPoolSize

/-- A client of a pool that `LOS_MemInit` set up with a single free node. -/
def Established (client : Client) : Prop :=
  client.live = [] ∧ ∃ registered memory pool size,
    losMemInit registered memory pool size = some client.heap ∧ pool + size ≤ 2 ^ 32 ∧
      osMemMinPoolSize + osMemMinLeftSize ≤ size ∧ size < 2 ^ 30 + osMemMinPoolSize

theorem FreshBelowFlags.established {client : Client} (fresh : client.FreshBelowFlags) :
    client.Established := by
  obtain ⟨size, ⟨registered, memory, pool, accepted, none, roomy, inside⟩, bounded⟩ := fresh
  exact ⟨none, registered, memory, pool, size, accepted, inside,
    Nat.le_trans (by decide) roomy.le, bounded⟩

theorem Established.consistent {client : Client} (fresh : client.Established) :
    ∃ region blocks, Consistent region client blocks := by
  obtain ⟨none, registered, memory, pool, size, accepted, inside, wide, bounded⟩ := fresh
  obtain ⟨heap, live⟩ := client
  obtain rfl : live = [] := none
  obtain ⟨region, rfl, rfl, rfl⟩ := exists_region accepted wide bounded inside
  exact ⟨region, _, osMemPoolInit_atRest region memory, fun _ member => (nomatch member),
    fun _ member => (nomatch member)⟩

theorem step_alloc (client : Client) {size : Nat} (word : size < 2 ^ 32) :
    ∃ next, client.step (.alloc size) = some next ∧
      next.heap = (losMemAlloc client.heap size).1 := by
  exact ⟨_, if_pos word, rfl⟩

/-- Every run whose calls fit keeps the client consistent. -/
theorem consistent_of_reachable {start : Client → Prop}
    (established : ∀ client, start client → client.Established) {client : Client}
    (reached : Reachable Client.step Client.Fits start client) :
    ∃ region blocks, Consistent region client blocks := by
  induction reached with
  | start fresh => exact (established _ fresh).consistent
  | step _ meets result hypothesis =>
    obtain ⟨region, blocks, consistent⟩ := hypothesis
    exact ⟨region, consistent.step meets result⟩

end Client

/-! ### The heap invariant over runs -/

/-- In every run whose calls fit, on a pool whose first node's size stays below the flag bits, the
heap satisfies its representation invariant. -/
theorem heapInvariant_of_reachable {client : Client}
    (reached : Reachable Client.step Client.Fits Client.FreshBelowFlags client) :
    WellFormed client.heap := by
  obtain ⟨region, blocks, consistent⟩ := Client.consistent_of_reachable
    (fun _ => Client.FreshBelowFlags.established) reached
  exact consistent.rest.wellFormed

def Call.size : Call → Nat
  | .alloc size => size
  | .allocAlign size _ => size
  | .realloc _ size => size
  | .free _ => 0
  | .write _ _ => 0

/-- A client of a pool over memory that holds one value everywhere. -/
def sampleClient (size value : Nat) : Client := ⟨osMemPoolInit (fun _ => value) 4096 size, []⟩

theorem sampleClient_setUp {size value : Nat} (whole : size &&& 3 = 0) (roomy : 976 < size)
    (inside : 4096 + size ≤ 2 ^ 32) : (sampleClient size value).SetUp size := by
  refine ⟨[], fun _ => value, 4096, ?_, rfl, roomy, inside⟩
  unfold losMemInit
  rw [if_neg (not_or.mpr ⟨by decide, Nat.not_le.mpr (Nat.lt_of_le_of_lt (by decide) roomy)⟩),
    if_neg (not_or.mpr ⟨by decide, fun odd => odd whole⟩)]
  rfl

/-- A run that allocates, aligns, writes, grows in place, moves, shrinks and frees. -/
def sampleCalls : List Call :=
  [.alloc 100, .allocAlign 40 64, .write 5056 7, .realloc 5048 200, .alloc 20, .realloc 5048 30,
    .free 5184]

def Client.small (_ : Client) (call : Call) : Bool :=
  (Client.request call).all fun size => size < 2 ^ 29

theorem Client.fits_of_small (client : Client) (call : Call) (small : client.small call = true) :
    client.Fits call := fun size asked => by
  unfold Client.small at small
  rw [asked] at small
  exact .inl (decide_eq_true_iff.mp small)

theorem sampleClient_fresh : (sampleClient 4000 0).FreshBelowFlags :=
  ⟨4000, sampleClient_setUp (by decide) (by decide) (by decide), by decide⟩

theorem heapInvariant_of_reachable_sample :
    ∃ client, execute Client.step Client.small (sampleClient 4000 0) sampleCalls = some client ∧
      WellFormed client.heap := by
  have ran : (execute Client.step Client.small (sampleClient 4000 0) sampleCalls).isSome = true := by
    decide +kernel
  obtain ⟨client, ran⟩ := Option.isSome_iff_exists.mp ran
  exact ⟨client, ran, heapInvariant_of_reachable
    (Reachable.of_execute Client.fits_of_small sampleCalls (.start sampleClient_fresh) ran)⟩

/-- A pool whose first node's size reaches the aligned flag. Its memory holds ones. -/
def flaggedClient : Client := sampleClient (2 ^ 30 + 2 ^ 20 + 952) (2 ^ 32 - 1)

/-- On such a pool the first allocation leaves a walk that does not follow the physical links:
the free node's size loses its flag bit, and the walk enters memory that is no node. -/
theorem heapInvariant_fails_flagged :
    ¬∀ client, Reachable Client.step (fun _ call => call.size < 2 ^ 29) Client.Fresh client →
      WellFormed client.heap := by
  intro claim
  have fresh : flaggedClient.Fresh := ⟨_, sampleClient_setUp (by decide) (by decide) (by decide)⟩
  obtain ⟨next, ran, heapEq⟩ := flaggedClient.step_alloc (show 8 < 2 ^ 32 by decide)
  obtain ⟨nodes, listed, walk, physical, -⟩ := claim _ ((Reachable.start fresh).step (by decide) ran)
  rw [heapEq] at walk physical
  let heap := (losMemAlloc flaggedClient.heap 8).1
  have start : heap.firstNode = 5040 := by decide +kernel
  have stop : heap.endNode = 1074795440 := by decide +kernel
  have firstSize : heap.nodeSize 5040 = 16 := by decide +kernel
  have secondSize : heap.nodeSize 5056 = 1048560 := by decide +kernel
  have third : heap.ptrPrev (heap.nextNode 1053616) ≠ 1053616 := by decide +kernel
  have walk' : Tiles id heap.nodeSize heap.firstNode nodes heap.endNode := walk
  rw [start, stop] at walk'
  obtain ⟨afterFirst, rfl, fromSecond⟩ := walk'.exists_head (by decide)
  rw [firstSize] at fromSecond
  obtain ⟨afterSecond, rfl, fromThird⟩ := fromSecond.exists_head (by decide)
  rw [show heap.nodeSize (5040 + 16) = 1048560 from secondSize] at fromThird
  obtain ⟨afterThird, rfl, -⟩ := fromThird.exists_head (by decide)
  refine third (physical _ ?_)
  exact List.mem_cons_of_mem _ (List.mem_cons_of_mem _ List.mem_cons_self)

/-! ### What an allocation designates -/

/-- The `size` bytes at a pointer are aligned, inside the pool, and apart from the blocks held
and from the head of every node of the pool. -/
structure Designates (heap : Heap) (live : List (Nat × Nat)) (pointer size boundary : Nat) :
    Prop where
  aligned : boundary ∣ pointer
  lower : heap.pool ≤ pointer
  upper : pointer + size ≤ heap.pool + heap.totalSize
  live : ∀ entry ∈ live, Apart pointer size entry.1 entry.2
  heads : ∃ nodes, heap.Walk nodes ∧ ∀ node ∈ nodes, Apart pointer size node osMemNodeHeadSize
  last : Apart pointer size heap.endNode osMemNodeHeadSize

theorem Client.Consistent.designates {client : Client} {result : Heap × Nat}
    {size boundary : Nat} (consistent : client.Consistent region blocks)
    (serves : Serves region client.heap blocks result size boundary) (served : result.2 ≠ 0) :
    Designates result.1 client.live result.2 size boundary := by
  rcases serves with rfl | ⟨blocks', block, granted, owns, aligned⟩
  · exact absurd rfl served
  obtain ⟨listed, represents⟩ := granted.rest.represents
  have layout := represents.layout
  obtain ⟨lower, upper, -, -⟩ := layout.bounds granted.member
  have pointerLower := owns.lower
  have pointerUpper := owns.fits
  have firstEq : region.first = result.1.pool + 944 := by
    rw [layout.pool]
    rfl
  have lastEq : region.last = result.1.pool + result.1.totalSize - 8 := by
    rw [layout.pool, layout.totalSize]
    rfl
  refine ⟨aligned, by omega, by omega, fun entry inLive => ?_,
    ⟨blocks'.map Block.address, granted.rest.walk, fun node member => ?_⟩, ?_⟩
  · obtain ⟨owner, inBlocks, ownsEntry⟩ := consistent.owned entry inLive
    have entryLower := ownsEntry.lower
    have entryUpper := ownsEntry.fits
    have inBlocks' := (granted.members owner ownsEntry.held).mpr (.inl inBlocks)
    unfold Apart
    rcases layout.apart granted.member inBlocks' with same | before | after
    · exact absurd (congrArg Block.address same).symm (granted.fresh owner inBlocks ownsEntry.held)
    · omega
    · omega
  · obtain ⟨other, inBlocks, rfl⟩ := mem_map.mp member
    have otherStop : other.stop = other.address + other.size := rfl
    unfold Apart osMemNodeHeadSize
    rcases layout.apart granted.member inBlocks with same | before | after
    · rw [same] at pointerLower
      omega
    · omega
    · omega
  · unfold Apart
    rw [layout.endNode_eq]
    omega

/-- In every run whose calls fit, on a pool whose first node's size stays below the flag bits, a
request that fits is served, if at all, by a block that is large enough, aligned, inside the pool
and apart from every block held and every node head. -/
theorem allocation_designates {client : Client}
    (reached : Reachable Client.step Client.Fits Client.FreshBelowFlags client) :
    (∀ size < 2 ^ 32, client.Fits (.alloc size) → (losMemAlloc client.heap size).2 ≠ 0 →
      Designates (losMemAlloc client.heap size).1 client.live (losMemAlloc client.heap size).2
        size osMemAlignSize) ∧
    ∀ size < 2 ^ 32, ∀ boundary, client.Fits (.allocAlign size boundary) →
      (losMemAllocAlign client.heap size boundary).2 ≠ 0 →
      Designates (losMemAllocAlign client.heap size boundary).1 client.live
        (losMemAllocAlign client.heap size boundary).2 size boundary := by
  obtain ⟨region, blocks, consistent⟩ := Client.consistent_of_reachable
    (fun _ => Client.FreshBelowFlags.established) reached
  refine ⟨fun size word meets served => ?_, fun size word boundary meets served => ?_⟩
  · have fits := (meets _ rfl).elim consistent.rest.classFits id
    exact consistent.designates (consistent.rest.losMemAlloc word fits) served
  · have fits := (meets _ rfl).elim consistent.rest.classFits id
    exact consistent.designates (consistent.rest.losMemAllocAlign word fits) served

theorem allocation_designates_sample :
    (losMemAllocAlign (sampleClient 4000 0).heap 40 64).2 = 5056 ∧
      Designates (losMemAllocAlign (sampleClient 4000 0).heap 40 64).1 []
        (losMemAllocAlign (sampleClient 4000 0).heap 40 64).2 40 64 := by
  have served : (losMemAllocAlign (sampleClient 4000 0).heap 40 64).2 = 5056 := by decide +kernel
  refine ⟨served, (allocation_designates (.start sampleClient_fresh)).2 40 (by decide) 64 ?_ ?_⟩
  · exact Client.fits_of_small _ _ (by decide +kernel)
  · rw [served]
    decide

/-- A fresh pool whose one free node is in a later class than a request of 2^29 bytes, and
smaller than it. -/
def smallerClient : Client := sampleClient (2 ^ 28 + 2 ^ 27 + 952) 0

/-- On such a pool a request that the interface accepts is served by a block that is too small:
the bytes asked for end behind the pool. -/
theorem allocation_too_small :
    ¬∀ client, Reachable Client.step (fun _ _ => True) Client.Fresh client →
      ∀ size, osMemNodeGetUsedFlag (allocSizeOf size) = 0 →
        osMemNodeGetAlignedFlag (allocSizeOf size) = 0 →
        (losMemAlloc client.heap size).2 ≠ 0 →
        Designates (losMemAlloc client.heap size).1 client.live (losMemAlloc client.heap size).2
          size osMemAlignSize := by
  intro claim
  have fresh : smallerClient.Fresh := ⟨_, sampleClient_setUp (by decide) (by decide) (by decide)⟩
  have served : (losMemAlloc smallerClient.heap (2 ^ 29)).2 = 5048 := by decide +kernel
  have pool : (losMemAlloc smallerClient.heap (2 ^ 29)).1.pool = 4096 := by decide +kernel
  have total : (losMemAlloc smallerClient.heap (2 ^ 29)).1.totalSize = 402654136 := by
    decide +kernel
  have designates := claim _ (.start fresh) (2 ^ 29) (by decide +kernel) (by decide +kernel)
    (by rw [served]; decide)
  have upper := designates.upper
  rw [served, pool, total] at upper
  exact absurd upper (by decide)

end TowerSafe.Memory
