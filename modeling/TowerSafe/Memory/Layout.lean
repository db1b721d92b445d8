/-
This file gives the abstract reading of a pool: the blocks that tile it, in address order. A
block is free and in the list of its class, used, or loose, which is a node the allocator has
in its hands in the middle of an operation. The words of the heads are read off the blocks,
and replacing the blocks between two addresses is one rule, whose side condition is that only
words between these addresses were written.
-/

import TowerSafe.Memory.FreeLists

namespace TowerSafe.Memory

open Library List

/-! ### Blocks -/

/-- What a node is. A loose node is in no list and carries no flag. -/
inductive NodeKind where
  | free
  | loose
  | used (aligned : Bool)
  deriving DecidableEq

/-- The flag bits of the size word. -/
def NodeKind.flags : NodeKind → Nat
  | free => 0
  | loose => 0
  | used false => 2 ^ 31
  | used true => 2 ^ 31 + 2 ^ 30

/-- A node of the pool with its size, head included. -/
structure Block where
  address : Nat
  size : Nat
  kind : NodeKind
  deriving DecidableEq

def Block.word (block : Block) : Nat := block.size + block.kind.flags

def Block.stop (block : Block) : Nat := block.address + block.size

/-- A pool region the allocator can manage: it is word-aligned, holds the pool head, the end node
and a full free-node head, ends inside the address space, and its first node's size does not reach
the flag bits. -/
structure Region where
  pool : Nat
  size : Nat
  real : 0 < pool
  poolAligned : 4 ∣ pool
  sizeAligned : 4 ∣ size
  roomy : osMemMinPoolSize + osMemMinLeftSize ≤ size
  bounded : size < 2 ^ 30 + osMemMinPoolSize
  inside : pool + size ≤ 2 ^ 32

namespace Region

/-- `OS_MEM_FIRST_NODE`. -/
def first (region : Region) : Nat := region.pool + 944

/-- `OS_MEM_END_NODE`. -/
def last (region : Region) : Nat := region.pool + region.size - 8

theorem facts (region : Region) :
    0 < region.first ∧ 4 ∣ region.first ∧ 4 ∣ region.last ∧ region.first + 16 ≤ region.last ∧
      region.last < region.first + 2 ^ 30 ∧ region.last + 8 ≤ 2 ^ 32 := by
  have poolAligned := region.poolAligned
  have sizeAligned := region.sizeAligned
  have roomy : 8 + 944 + 16 ≤ region.size := region.roomy
  have bounded : region.size < 2 ^ 30 + (8 + 944) := region.bounded
  have inside := region.inside
  unfold first last
  omega

end Region

/-- The head of a block and the back link of the node after it. -/
structure Headed (memory : Nat → Nat) (block : Block) : Prop where
  wide : 16 ≤ block.size
  whole : 4 ∣ block.size
  word : memory (block.address + 4) = block.word
  back : memory block.stop = block.address

/-- The words of the pool say that these blocks tile it. -/
structure Layout (region : Region) (heap : Heap) (blocks : List Block) : Prop where
  pool : heap.pool = region.pool
  totalSize : heap.totalSize = region.size
  calm : heap.panicked = false
  tiles : Tiles Block.address Block.size region.first blocks region.last
  headed : ∀ block ∈ blocks, Headed heap.memory block
  firstBack : heap.memory region.first = region.last
  ending : heap.memory (region.last + 4) = 2 ^ 31

namespace Layout

variable {region : Region} {heap heap' : Heap} {blocks : List Block}

theorem firstNode_eq (layout : Layout region heap blocks) : heap.firstNode = region.first := by
  unfold Heap.firstNode
  rw [layout.pool]
  rfl

theorem endNode_eq (layout : Layout region heap blocks) : heap.endNode = region.last := by
  unfold Heap.endNode
  rw [layout.pool, layout.totalSize]
  rfl

theorem bounds (layout : Layout region heap blocks) {block : Block} (member : block ∈ blocks) :
    region.first ≤ block.address ∧ block.stop ≤ region.last ∧ 16 ≤ block.size ∧
      block.size < 2 ^ 30 := by
  obtain ⟨lower, upper, -⟩ := layout.tiles.bounds member
  have wide := (layout.headed block member).wide
  obtain ⟨-, -, -, -, span, -⟩ := region.facts
  exact ⟨lower, upper, wide, by omega⟩

variable {start stop : Nat}

theorem aligned_start {tail : List Block} (tiles : Tiles Block.address Block.size start tail stop)
    (headed : ∀ block ∈ tail, Headed heap.memory block) (aligned : 4 ∣ start) :
    ∀ block ∈ tail, 4 ∣ block.address := by
  induction tail generalizing start with
  | nil => exact fun _ member => nomatch member
  | cons head rest hypothesis =>
    obtain ⟨rfl, -, remaining⟩ := tiles
    intro block member
    rcases mem_cons.mp member with rfl | old
    · exact aligned
    · exact hypothesis remaining (fun other old => headed other (mem_cons_of_mem _ old))
        (Nat.dvd_add aligned (headed head mem_cons_self).whole) block old

section

variable (layout : Layout region heap blocks)
include layout

theorem aligned {block : Block} (member : block ∈ blocks) :
    4 ∣ block.address :=
  aligned_start layout.tiles layout.headed region.facts.2.1 block member

theorem eq_of_address_eq {first second : Block}
    (firstMember : first ∈ blocks) (secondMember : second ∈ blocks)
    (same : first.address = second.address) : first = second :=
  layout.tiles.eq_of_address_eq firstMember secondMember same

theorem apart {first second : Block}
    (firstMember : first ∈ blocks) (secondMember : second ∈ blocks) :
    first = second ∨ first.stop ≤ second.address ∨ second.stop ≤ first.address :=
  layout.tiles.apart firstMember secondMember

theorem congr (samePool : heap'.pool = heap.pool)
    (sameSize : heap'.totalSize = heap.totalSize) (samePanic : heap'.panicked = heap.panicked)
    (sameWord : ∀ block ∈ blocks, heap'.memory (block.address + 4) =
      heap.memory (block.address + 4))
    (sameBack : ∀ block ∈ blocks, heap'.memory block.stop = heap.memory block.stop)
    (sameFirst : heap'.memory region.first = heap.memory region.first)
    (sameLast : heap'.memory (region.last + 4) = heap.memory (region.last + 4)) :
    Layout region heap' blocks where
  pool := samePool.trans layout.pool
  totalSize := sameSize.trans layout.totalSize
  calm := samePanic.trans layout.calm
  tiles := layout.tiles
  headed := fun block member => by
    obtain ⟨wide, whole, word, back⟩ := layout.headed block member
    exact ⟨wide, whole, (sameWord block member).trans word, (sameBack block member).trans back⟩
  firstBack := sameFirst.trans layout.firstBack
  ending := sameLast.trans layout.ending

end

variable {front back : List Block}

theorem around {old : List Block} (layout : Layout region heap (front ++ old ++ back))
    (oldTiles : Tiles Block.address Block.size start old stop) (occupied : old ≠ []) :
    Tiles Block.address Block.size region.first front start ∧
      Tiles Block.address Block.size stop back region.last := by
  obtain ⟨middle, firstTiles, backTiles⟩ := tiles_append.mp layout.tiles
  obtain ⟨start', frontTiles, oldTiles'⟩ := tiles_append.mp firstTiles
  have sameStart : start' = start := by
    cases old with
    | nil => exact absurd rfl occupied
    | cons head tail => exact oldTiles'.1.symm.trans oldTiles.1
  subst sameStart
  obtain rfl : middle = stop := tiles_stop_unique oldTiles' oldTiles
  exact ⟨frontTiles, backTiles⟩

/-- Replacing the blocks between two addresses, when the words outside are kept. The word at
the first of the two addresses is the back link that belongs to the block before. -/
theorem replace {old new : List Block}
    (layout : Layout region heap (front ++ old ++ back)) (samePool : heap'.pool = heap.pool)
    (sameSize : heap'.totalSize = heap.totalSize) (samePanic : heap'.panicked = heap.panicked)
    (oldTiles : Tiles Block.address Block.size start old stop) (occupied : old ≠ [])
    (newTiles : Tiles Block.address Block.size start new stop)
    (newHeaded : ∀ block ∈ new, Headed heap'.memory block)
    (outside : ∀ address, address ≤ start ∨ stop < address →
      heap'.memory address = heap.memory address) : Layout region heap' (front ++ new ++ back) := by
  obtain ⟨frontTiles, backTiles⟩ := layout.around oldTiles occupied
  have headed := layout.headed
  refine ⟨samePool.trans layout.pool, sameSize.trans layout.totalSize, samePanic.trans layout.calm,
    tiles_append.mpr ⟨stop, tiles_append.mpr ⟨start, frontTiles, newTiles⟩, backTiles⟩,
    fun block member => ?_, ?_, ?_⟩
  · rcases mem_append.mp member with first | inBack
    · rcases mem_append.mp first with inFront | inNew
      · obtain ⟨wide, whole, word, link⟩ :=
          headed block (mem_append_left _ (mem_append_left _ inFront))
        have upper : block.stop ≤ start := (frontTiles.bounds inFront).2.1
        have less : block.address + 4 ≤ start := by
          unfold Block.stop at upper
          omega
        exact ⟨wide, whole, (outside _ (.inl less)).trans word, (outside _ (.inl upper)).trans link⟩
      · exact newHeaded block inNew
    · obtain ⟨wide, whole, word, link⟩ := headed block (mem_append_right _ inBack)
      have lower := (backTiles.bounds inBack).1
      have later : stop < block.stop := by
        unfold Block.stop
        omega
      exact ⟨wide, whole, (outside _ (.inr (by omega))).trans word,
        (outside _ (.inr later)).trans link⟩
  · exact (outside _ (.inl frontTiles.le)).trans layout.firstBack
  · have lower := backTiles.le
    exact (outside _ (.inr (by omega))).trans layout.ending

variable {block : Block}

section

variable (layout : Layout region heap (front ++ block :: back))
include layout

theorem address_ne {other : Block}
    (member : other ∈ front ++ back) : other.address ≠ block.address := by
  have nodup := layout.tiles.address_nodup
  rw [map_append] at nodup
  obtain ⟨-, backNodup, apart⟩ := nodup_append.mp nodup
  rcases mem_append.mp member with inFront | inBack
  · exact apart _ (mem_map_of_mem inFront) _ mem_cons_self
  intro same
  have old : other.address ∈ back.map Block.address := mem_map_of_mem inBack
  rw [same] at old
  exact (nodup_cons.mp backNodup).1 old

theorem after :
    back = [] ∧ block.stop = region.last ∨
      ∃ next rest, back = next :: rest ∧ next.address = block.stop := by
  obtain ⟨start, -, same, -, tail⟩ := tiles_append.mp layout.tiles
  cases back with
  | nil => exact .inl ⟨rfl, by rw [Block.stop, same]; exact tail⟩
  | cons next rest => exact .inr ⟨next, rest, rfl, by rw [Block.stop, same]; exact tail.1⟩

theorem before :
    front = [] ∧ block.address = region.first ∨
      ∃ init previous, front = init ++ [previous] ∧ previous.stop = block.address := by
  obtain ⟨start, frontTiles, same, -⟩ := tiles_append.mp layout.tiles
  rcases eq_nil_or_concat' front with rfl | ⟨init, previous, rfl⟩
  · exact .inl ⟨rfl, same.trans frontTiles.symm⟩
  obtain ⟨middle, -, sameMiddle, -, reached⟩ := tiles_append.mp frontTiles
  refine .inr ⟨init, previous, rfl, ?_⟩
  rw [Block.stop, sameMiddle, same]
  exact reached

end

end Layout

end TowerSafe.Memory
