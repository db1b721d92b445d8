/-
This file proves what the node primitives do to the blocks of a pool: taking a free node out of
its list makes it loose, putting a loose node into its list makes it free, merging joins two
adjacent loose nodes, splitting cuts one, and writing a size word marks one. Each of them keeps
the contents of the blocks it does not list.
-/

import TowerSafe.Memory.Layout

namespace TowerSafe.Memory

open Library
open Function (update update_self update_of_ne)
open List

/-- A heap represents blocks: they tile the pool, the free ones are listed by class, and
nothing else is listed. -/
structure Represents (region : Region) (heap : Heap) (blocks : List Block)
    (listed : Nat → List Nat) : Prop where
  layout : Layout region heap blocks
  lists : FreeLists heap listed
  classed : ∀ index < osMemFreeListCount, ∀ node, node ∈ listed index ↔
    ∃ size, ⟨node, size, .free⟩ ∈ blocks ∧ osMemFreeListIndexGet size = index

/-- The bodies of the blocks that are not free have the same contents. -/
def Kept (heap heap' : Heap) (blocks : List Block) : Prop :=
  ∀ block ∈ blocks, block.kind ≠ .free → ∀ address, block.address + 8 ≤ address →
    address < block.stop → heap'.memory address = heap.memory address

theorem Kept.trans {heap heap' heap'' : Heap} {blocks blocks' : List Block}
    (first : Kept heap heap' blocks) (second : Kept heap' heap'' blocks')
    (within : ∀ block ∈ blocks', block.kind ≠ .free → block ∈ blocks) :
    Kept heap heap'' blocks' := fun block member held address lower upper =>
  (second block member held address lower upper).trans
    (first block (within block member held) held address lower upper)

theorem Headed.rekind {memory : Nat → Nat} {address size : Nat} {kind kind' : NodeKind}
    (headed : Headed memory ⟨address, size, kind⟩) (same : kind'.flags = kind.flags) :
    Headed memory ⟨address, size, kind'⟩ :=
  ⟨headed.wide, headed.whole, headed.word.trans (congrArg (size + ·) same.symm), headed.back⟩

theorem tiles_single {block : Block} (positive : 0 < block.size) :
    Tiles Block.address Block.size block.address [block] block.stop :=
  ⟨rfl, positive, rfl⟩

namespace Represents

variable {region : Region} {heap : Heap} {blocks front back : List Block}
  {listed : Nat → List Nat} {address size : Nat}

/-! ### Links and heads -/

theorem link_away (layout : Layout region heap blocks) {block : Block} (member : block ∈ blocks)
    {link : Nat} (isLink : link = block.address + 8 ∨ link = block.address + 12) :
    link ≠ region.first ∧ link ≠ region.last + 4 ∧
      ∀ other ∈ blocks, link ≠ other.address + 4 ∧ link ≠ other.stop ∧
        (other ≠ block → ¬(other.address ≤ link ∧ link < other.stop)) := by
  obtain ⟨lower, upper, wide, -⟩ := layout.bounds member
  have stopEq : block.stop = block.address + block.size := rfl
  refine ⟨by omega, by omega, fun other old => ?_⟩
  have otherStop : other.stop = other.address + other.size := rfl
  rcases layout.apart old member with rfl | before | after
  · exact ⟨by omega, by omega, fun differ => absurd rfl differ⟩
  · exact ⟨by omega, by omega, fun _ => by omega⟩
  · exact ⟨by omega, by omega, fun _ => by omega⟩

theorem relink {heap' : Heap} {written : Block → Prop} (layout : Layout region heap blocks)
    (samePool : heap'.pool = heap.pool) (sameSize : heap'.totalSize = heap.totalSize)
    (samePanic : heap'.panicked = heap.panicked)
    (frame : ∀ place, (∀ block ∈ blocks, written block →
        ¬(place = block.address + 8 ∨ place = block.address + 12)) →
      heap'.memory place = heap.memory place) : Layout region heap' blocks ∧
      ∀ block ∈ blocks, ¬written block → ∀ place, block.address ≤ place → place < block.stop →
        heap'.memory place = heap.memory place := by
  refine ⟨layout.congr samePool sameSize samePanic (fun other old => ?_) (fun other old => ?_)
    (frame _ fun block member _ which => (link_away layout member which).1 rfl)
    (frame _ fun block member _ which => (link_away layout member which).2.1 rfl),
    fun other old notWritten place lower upper => ?_⟩
  · exact frame _ fun block member _ which => ((link_away layout member which).2.2 other old).1 rfl
  · exact frame _ fun block member _ which =>
      ((link_away layout member which).2.2 other old).2.1 rfl
  · refine frame _ fun block member wrote which => ?_
    refine ((link_away layout member which).2.2 other old).2.2 (fun same => ?_) ⟨lower, upper⟩
    exact notWritten (same ▸ wrote)

theorem rekind {kind kind' : NodeKind}
    (layout : Layout region heap (front ++ ⟨address, size, kind⟩ :: back))
    (same : kind'.flags = kind.flags) :
    Layout region heap (front ++ ⟨address, size, kind'⟩ :: back) := by
  have member : ⟨address, size, kind⟩ ∈ front ++ (⟨address, size, kind⟩ : Block) :: back :=
    mem_append_right _ mem_cons_self
  have headed := layout.headed _ member
  have positive : 0 < size := Nat.lt_of_lt_of_le (by decide) headed.wide
  have single : Layout region heap (front ++ [⟨address, size, kind⟩] ++ back) := by
    rwa [append_assoc]
  have replaced : Layout region heap (front ++ [⟨address, size, kind'⟩] ++ back) := by
    refine single.replace rfl rfl rfl (tiles_single positive) (cons_ne_nil _ _)
      (@tiles_single ⟨address, size, kind'⟩ positive) (fun block inNew => ?_) fun _ _ => rfl
    obtain rfl := mem_singleton.mp inNew
    exact headed.rekind same
  rwa [append_assoc] at replaced

theorem linkOf_block (represents : Represents region heap blocks listed) {index : Nat}
    (bound : index < osMemFreeListCount) {link : Nat} (isLink : LinkOf (listed index) link) :
    ∃ block ∈ blocks, block.kind = .free ∧
      (link = block.address + 8 ∨ link = block.address + 12) := by
  obtain ⟨node, member, which⟩ := isLink
  obtain ⟨size, inBlocks, -⟩ := (represents.classed index bound node).mp member
  exact ⟨_, inBlocks, rfl, which⟩

theorem congr {heap' : Heap} (represents : Represents region heap blocks listed)
    (samePool : heap'.pool = heap.pool) (sameSize : heap'.totalSize = heap.totalSize)
    (samePanic : heap'.panicked = heap.panicked) (sameHeads : heap'.freeList = heap.freeList)
    (sameBitmap : heap'.freeListBitmap = heap.freeListBitmap)
    (sameMemory : heap'.memory = heap.memory) : Represents region heap' blocks listed where
  layout := represents.layout.congr samePool sameSize samePanic (fun _ _ => by rw [sameMemory])
    (fun _ _ => by rw [sameMemory]) (by rw [sameMemory]) (by rw [sameMemory])
  lists := represents.lists.congr sameHeads sameBitmap fun _ _ _ _ => by rw [sameMemory]
  classed := represents.classed

theorem replace {old new : List Block} {start stop : Nat} {memory' : Nat → Nat}
    (represents : Represents region heap (front ++ old ++ back) listed)
    (oldTiles : Tiles Block.address Block.size start old stop) (occupied : old ≠ [])
    (newTiles : Tiles Block.address Block.size start new stop)
    (newHeaded : ∀ block ∈ new, Headed memory' block)
    (outside : ∀ address, address ≤ start ∨ stop < address →
      memory' address = heap.memory address)
    (oldHeld : ∀ block ∈ old, block.kind ≠ .free) (newHeld : ∀ block ∈ new, block.kind ≠ .free) :
    Represents region { heap with memory := memory' } (front ++ new ++ back) listed := by
  have layout := represents.layout
  have others : ∀ node size, (⟨node, size, .free⟩ : Block) ∈ front ++ new ++ back ↔
      (⟨node, size, .free⟩ : Block) ∈ front ++ old ++ back := fun node size => by
    have notOld : (⟨node, size, .free⟩ : Block) ∉ old := fun member => oldHeld _ member rfl
    have notNew : (⟨node, size, .free⟩ : Block) ∉ new := fun member => newHeld _ member rfl
    simp only [mem_append, notOld, notNew, or_false]
  refine ⟨layout.replace rfl rfl rfl oldTiles occupied newTiles newHeaded outside,
    represents.lists.congr rfl rfl fun index bound link isLink => ?_, fun index bound node => ?_⟩
  · obtain ⟨block, member, isFree, which⟩ := represents.linkOf_block bound isLink
    refine outside link ?_
    obtain ⟨frontTiles, backTiles⟩ := layout.around oldTiles occupied
    have wide := (layout.bounds member).2.2.1
    rcases mem_append.mp member with inFirst | inBack
    · rcases mem_append.mp inFirst with inFront | inOld
      · have upper := (frontTiles.bounds inFront).2.1
        exact .inl (by omega)
      · exact absurd isFree (oldHeld block inOld)
    · have lower := (backTiles.bounds inBack).1
      exact .inr (by omega)
  · rw [represents.classed index bound node]
    exact exists_congr fun size => and_congr_left' (others node size).symm

theorem kept_replace {old new : List Block} {start stop : Nat} {memory' : Nat → Nat}
    (represents : Represents region heap (front ++ old ++ back) listed)
    (oldTiles : Tiles Block.address Block.size start old stop) (occupied : old ≠ [])
    (outside : ∀ address, address ≤ start ∨ stop < address →
      memory' address = heap.memory address)
    (newKept : Kept heap { heap with memory := memory' } new) :
    Kept heap { heap with memory := memory' } (front ++ new ++ back) := by
  intro block member held place lower upper
  obtain ⟨frontTiles, backTiles⟩ := represents.layout.around oldTiles occupied
  rcases mem_append.mp member with inFirst | inBack
  · rcases mem_append.mp inFirst with inFront | inNew
    · have within : block.stop ≤ start := (frontTiles.bounds inFront).2.1
      exact outside place (.inl (by omega))
    · exact newKept block inNew held place lower upper
  · have within := (backTiles.bounds inBack).1
    exact outside place (.inr (by omega))

/-! ### Free lists -/

theorem osMemListDelete_same (heap : Heap) (index node : Nat) :
    (osMemListDelete heap index node).pool = heap.pool ∧
      (osMemListDelete heap index node).totalSize = heap.totalSize ∧
      (osMemListDelete heap index node).panicked = heap.panicked := by
  unfold osMemListDelete
  split
  · simp only
    split
    · exact ⟨rfl, rfl, rfl⟩
    · exact ⟨rfl, rfl, rfl⟩
  · simp only
    split
    · exact ⟨rfl, rfl, rfl⟩
    · exact ⟨rfl, rfl, rfl⟩

theorem osMemListAdd_same (heap : Heap) (index node : Nat) :
    (osMemListAdd heap index node).pool = heap.pool ∧
      (osMemListAdd heap index node).totalSize = heap.totalSize ∧
      (osMemListAdd heap index node).panicked = heap.panicked := by
  unfold osMemListAdd
  simp only
  split
  · exact ⟨rfl, rfl, rfl⟩
  · exact ⟨rfl, rfl, rfl⟩

theorem mem_listed (represents : Represents region heap blocks listed)
    (member : ⟨address, size, .free⟩ ∈ blocks) : osMemFreeListIndexGet size < osMemFreeListCount ∧
      address ∈ listed (osMemFreeListIndexGet size) := by
  obtain ⟨-, -, wide, small⟩ := represents.layout.bounds member
  have bound : osMemFreeListIndexGet size < osMemFreeListCount :=
    osMemFreeListIndexGet_lt (Nat.le_trans (by decide) wide) (small.trans (by decide))
  exact ⟨bound, (represents.classed _ bound address).mpr ⟨size, member, rfl⟩⟩

theorem sizeAndFlag_eq (represents : Represents region heap blocks listed) {block : Block}
    (member : block ∈ blocks) : heap.sizeAndFlag block.address = block.word :=
  (represents.layout.headed block member).word

theorem mem_loosened (layout : Layout region heap (front ++ ⟨address, size, .free⟩ :: back))
    {node length : Nat} :
    (⟨node, length, .free⟩ : Block) ∈ front ++ ⟨address, size, .loose⟩ :: back ↔
      (⟨node, length, .free⟩ : Block) ∈ front ++ ⟨address, size, .free⟩ :: back ∧
        node ≠ address := by
  simp only [mem_append, mem_cons, Block.mk.injEq]
  constructor
  · rintro (inFront | ⟨-, -, kind⟩ | inBack)
    · exact ⟨.inl inFront, layout.address_ne (mem_append_left _ inFront)⟩
    · exact nomatch kind
    · exact ⟨.inr (.inr inBack), layout.address_ne (mem_append_right _ inBack)⟩
  · rintro ⟨inFront | ⟨same, -⟩ | inBack, differ⟩
    · exact .inl inFront
    · exact absurd same differ
    · exact .inr (.inr inBack)

theorem freeNodeDelete_eq (represents : Represents region heap blocks listed)
    (member : ⟨address, size, .free⟩ ∈ blocks) : osMemFreeNodeDelete heap address =
      osMemListDelete heap (osMemFreeListIndexGet size) address := by
  have word : heap.sizeAndFlag address = size := represents.sizeAndFlag_eq member
  unfold osMemFreeNodeDelete
  rw [word]

theorem freeNodeDelete_frame (represents : Represents region heap blocks listed)
    (member : ⟨address, size, .free⟩ ∈ blocks) {place : Nat}
    (away : ∀ block ∈ blocks, block.kind = .free ∧ block.address ≠ address →
      ¬(place = block.address + 8 ∨ place = block.address + 12)) :
    (osMemFreeNodeDelete heap address).memory place = heap.memory place := by
  obtain ⟨bound, inList⟩ := represents.mem_listed member
  rw [represents.freeNodeDelete_eq member]
  refine represents.lists.delete_frame bound inList fun isLink => ?_
  obtain ⟨node, erased, which⟩ := isLink
  obtain ⟨differ, old⟩ := (represents.lists.linked _ bound).distinct.mem_erase_iff.mp erased
  obtain ⟨length, inBlocks, -⟩ := (represents.classed _ bound node).mp old
  exact away _ inBlocks ⟨rfl, differ⟩ which

theorem freeNodeDelete
    (represents : Represents region heap (front ++ ⟨address, size, .free⟩ :: back) listed) :
    (∃ listed', Represents region (osMemFreeNodeDelete heap address)
        (front ++ ⟨address, size, .loose⟩ :: back) listed') ∧
      Kept heap (osMemFreeNodeDelete heap address) (front ++ ⟨address, size, .loose⟩ :: back) := by
  have layout := represents.layout
  have member : ⟨address, size, .free⟩ ∈ front ++ (⟨address, size, .free⟩ : Block) :: back :=
    mem_append_right _ mem_cons_self
  obtain ⟨bound, inList⟩ := represents.mem_listed member
  have result := represents.freeNodeDelete_eq member
  have linked := represents.lists.linked _ bound
  obtain ⟨samePool, sameSize, samePanic⟩ :=
    osMemListDelete_same heap (osMemFreeListIndexGet size) address
  rw [← result] at samePool sameSize samePanic
  obtain ⟨sameLayout, same⟩ := @relink _ _ _ (osMemFreeNodeDelete heap address)
    (fun block => block.kind = .free ∧ block.address ≠ address) layout samePool sameSize
    samePanic fun place away => represents.freeNodeDelete_frame member away
  rw [result] at sameLayout same ⊢
  refine ⟨⟨update listed (osMemFreeListIndexGet size)
      ((listed (osMemFreeListIndexGet size)).erase address),
    rekind sameLayout rfl, represents.lists.delete bound inList, fun index indexBound node => ?_⟩,
    ?_⟩
  · by_cases sameIndex : index = osMemFreeListIndexGet size
    · subst sameIndex
      rw [update_self, linked.distinct.mem_erase_iff, represents.classed _ bound]
      constructor
      · rintro ⟨differ, length, inBlocks, class'⟩
        exact ⟨length, (mem_loosened layout).mpr ⟨inBlocks, differ⟩, class'⟩
      · rintro ⟨length, inBlocks, class'⟩
        obtain ⟨old, differ⟩ := (mem_loosened layout).mp inBlocks
        exact ⟨differ, length, old, class'⟩
    · rw [update_of_ne sameIndex, represents.classed _ indexBound]
      constructor
      · rintro ⟨length, inBlocks, class'⟩
        refine ⟨length, (mem_loosened layout).mpr ⟨inBlocks, fun equal => sameIndex ?_⟩, class'⟩
        have equalSize : length = size :=
          congrArg Block.size (layout.eq_of_address_eq inBlocks member equal)
        rw [← class', equalSize]
      · rintro ⟨length, inBlocks, class'⟩
        exact ⟨length, ((mem_loosened layout).mp inBlocks).1, class'⟩
  · intro block inBlocks held place lower upper
    rcases mem_append.mp inBlocks with inFront | inRest
    · exact same block (mem_append_left _ inFront) (fun ⟨isFree, _⟩ => held isFree) place
        (by omega) upper
    rcases mem_cons.mp inRest with rfl | inBack
    · exact same _ member (fun ⟨_, differ⟩ => differ rfl) place (Nat.le_of_add_right_le lower) upper
    · exact same block (mem_append_right _ (mem_cons_of_mem _ inBack))
        (fun ⟨isFree, _⟩ => held isFree) place (by omega) upper

section

variable (represents : Represents region heap blocks listed)
include represents

section

variable (member : ⟨address, size, .loose⟩ ∈ blocks)
include member

theorem loose_apart :
    ∀ index < osMemFreeListCount, ∀ other ∈ listed index,
      Apart address osMemMinLeftSize other osMemMinLeftSize := fun index indexBound other old => by
  obtain ⟨length, inBlocks, -⟩ := (represents.classed index indexBound other).mp old
  have wide : 16 ≤ size := (represents.layout.bounds member).2.2.1
  have otherWide : 16 ≤ length := (represents.layout.bounds inBlocks).2.2.1
  have apart : Apart address size other length := by
    rcases represents.layout.apart member inBlocks with equal | apart
    · exact nomatch congrArg Block.kind equal
    · exact apart
  unfold Apart osMemMinLeftSize at *
  omega

theorem freeNodeAdd_eq : osMemFreeListIndexGet size < osMemFreeListCount ∧
      osMemFreeNodeAdd heap address = osMemListAdd heap (osMemFreeListIndexGet size) address := by
  obtain ⟨-, -, wide, small⟩ := represents.layout.bounds member
  have bound : osMemFreeListIndexGet size < osMemFreeListCount :=
    osMemFreeListIndexGet_lt (Nat.le_trans (by decide) wide) (small.trans (by decide))
  have word : heap.sizeAndFlag address = size := represents.sizeAndFlag_eq member
  unfold osMemFreeNodeAdd
  rw [word]
  exact ⟨bound, if_neg (Nat.not_le.mpr bound)⟩

theorem freeNodeAdd_frame {place : Nat}
    (away : ∀ block ∈ blocks, block.kind = .free ∨ block.address = address →
      ¬(place = block.address + 8 ∨ place = block.address + 12)) :
    (osMemFreeNodeAdd heap address).memory place = heap.memory place := by
  obtain ⟨bound, result⟩ := represents.freeNodeAdd_eq member
  rw [result]
  refine represents.lists.add_frame bound (represents.loose_apart member _ bound) fun isLink => ?_
  obtain ⟨node, inList, which⟩ := isLink
  rcases mem_cons.mp inList with rfl | old
  · exact away _ member (.inr rfl) which
  · obtain ⟨length, inBlocks, -⟩ := (represents.classed _ bound node).mp old
    exact away _ inBlocks (.inl rfl) which

end

end

theorem freeNodeAdd
    (represents : Represents region heap (front ++ ⟨address, size, .loose⟩ :: back) listed) :
    (∃ listed', Represents region (osMemFreeNodeAdd heap address)
        (front ++ ⟨address, size, .free⟩ :: back) listed') ∧
      Kept heap (osMemFreeNodeAdd heap address) (front ++ ⟨address, size, .free⟩ :: back) := by
  have layout := represents.layout
  have member : ⟨address, size, .loose⟩ ∈ front ++ (⟨address, size, .loose⟩ : Block) :: back :=
    mem_append_right _ mem_cons_self
  obtain ⟨lower, -, wide, small⟩ := layout.bounds member
  have real : address ≠ 0 := (Nat.lt_of_lt_of_le region.facts.1 lower).ne'
  obtain ⟨bound, result⟩ := represents.freeNodeAdd_eq member
  have fresh := represents.loose_apart member
  obtain ⟨samePool, sameSize, samePanic⟩ :=
    osMemListAdd_same heap (osMemFreeListIndexGet size) address
  rw [← result] at samePool sameSize samePanic
  obtain ⟨sameLayout, same⟩ := @relink _ _ _ (osMemFreeNodeAdd heap address)
    (fun block => block.kind = .free ∨ block.address = address) layout samePool sameSize
    samePanic fun place away => represents.freeNodeAdd_frame member away
  rw [result] at sameLayout same ⊢
  have freeLayout : Layout region (osMemListAdd heap (osMemFreeListIndexGet size) address)
      (front ++ ⟨address, size, .free⟩ :: back) := rekind sameLayout rfl
  have freeMember : ⟨address, size, .free⟩ ∈ front ++ (⟨address, size, .free⟩ : Block) :: back :=
    mem_append_right _ mem_cons_self
  have differ : ∀ index < osMemFreeListCount, address ∉ listed index :=
    fun index indexBound old => by
      obtain ⟨length, inBlocks, -⟩ := (represents.classed index indexBound address).mp old
      exact nomatch congrArg Block.kind (layout.eq_of_address_eq inBlocks member rfl)
  have others : ∀ {node length}, node ≠ address →
      ((⟨node, length, .free⟩ : Block) ∈ front ++ ⟨address, size, .free⟩ :: back ↔
        (⟨node, length, .free⟩ : Block) ∈ front ++ ⟨address, size, .loose⟩ :: back) := by
    intro node length away
    simp only [mem_append, mem_cons, Block.mk.injEq, away, false_and]
  refine ⟨⟨update listed (osMemFreeListIndexGet size)
      (address :: listed (osMemFreeListIndexGet size)),
    freeLayout, represents.lists.add bound real fresh, fun index indexBound node => ?_⟩, ?_⟩
  · by_cases away : node = address
    · subst away
      by_cases sameIndex : index = osMemFreeListIndexGet size
      · subst sameIndex
        rw [update_self]
        exact iff_of_true mem_cons_self ⟨size, freeMember, rfl⟩
      rw [update_of_ne sameIndex]
      refine iff_of_false (differ index indexBound) ?_
      rintro ⟨length, inBlocks, class'⟩
      have equalSize : length = size :=
        congrArg Block.size (freeLayout.eq_of_address_eq inBlocks freeMember rfl)
      exact sameIndex (by rw [← class', equalSize])
    · have old : node ∈ update listed (osMemFreeListIndexGet size)
          (address :: listed (osMemFreeListIndexGet size)) index ↔ node ∈ listed index := by
        by_cases sameIndex : index = osMemFreeListIndexGet size
        · subst sameIndex
          rw [update_self, mem_cons, or_iff_right away]
        · rw [update_of_ne sameIndex]
      rw [old, represents.classed index indexBound]
      exact exists_congr fun length => and_congr_left' (others away).symm
  · intro block inBlocks held place lower upper
    have away : block.address ≠ address := fun equal => by
      have equalBlock := freeLayout.eq_of_address_eq inBlocks freeMember equal
      exact held (congrArg Block.kind equalBlock)
    have old : block ∈ front ++ (⟨address, size, .loose⟩ : Block) :: back := by
      rcases mem_append.mp inBlocks with inFront | inRest
      · exact mem_append_left _ inFront
      · rcases mem_cons.mp inRest with rfl | inBack
        · exact absurd rfl away
        · exact mem_append_right _ (mem_cons_of_mem _ inBack)
    exact same block old (fun wrote => wrote.elim held away) place (by omega) upper

/-! ### Sizes -/

theorem setWord {kind kind' : NodeKind} (held : kind ≠ .free) (held' : kind' ≠ .free)
    (represents : Represents region heap (front ++ ⟨address, size, kind⟩ :: back) listed) :
    Represents region (heap.setSizeAndFlag address (Block.word ⟨address, size, kind'⟩))
        (front ++ ⟨address, size, kind'⟩ :: back) listed ∧
      Kept heap (heap.setSizeAndFlag address (Block.word ⟨address, size, kind'⟩))
        (front ++ ⟨address, size, kind'⟩ :: back) := by
  have member : ⟨address, size, kind⟩ ∈ front ++ (⟨address, size, kind⟩ : Block) :: back :=
    mem_append_right _ mem_cons_self
  obtain ⟨wide, whole, word, link⟩ := represents.layout.headed _ member
  have wide' : 16 ≤ size := wide
  have single : Represents region heap (front ++ [⟨address, size, kind⟩] ++ back) listed := by
    rwa [append_assoc]
  have oldTiles : Tiles Block.address Block.size address [⟨address, size, kind⟩]
      (address + size) := ⟨rfl, Nat.lt_of_lt_of_le (by decide) wide', rfl⟩
  have newTiles : Tiles Block.address Block.size address [⟨address, size, kind'⟩]
      (address + size) := ⟨rfl, Nat.lt_of_lt_of_le (by decide) wide', rfl⟩
  let memory' := update heap.memory (address + 4) (Block.word ⟨address, size, kind'⟩)
  have outside : ∀ place, place ≤ address ∨ address + size < place →
      memory' place = heap.memory place := fun place away =>
    update_of_ne (by omega) _ _
  have headed : ∀ block ∈ [(⟨address, size, kind'⟩ : Block)], Headed memory' block := by
    intro block inNew
    obtain rfl := mem_singleton.mp inNew
    refine ⟨wide, whole, update_self _ _ _, ?_⟩
    exact (update_of_ne (show address + size ≠ address + 4 by omega) _ _).trans link
  have kept : Kept heap { heap with memory := memory' } [(⟨address, size, kind'⟩ : Block)] := by
    intro block inNew _ place lower _
    obtain rfl := mem_singleton.mp inNew
    have lower' : address + 8 ≤ place := lower
    exact update_of_ne (by omega) _ _
  have result := single.replace oldTiles (cons_ne_nil _ _) newTiles headed outside
    (fun block inOld => by rw [mem_singleton.mp inOld]; exact held)
    fun block inNew => by rw [mem_singleton.mp inNew]; exact held'
  have contents := single.kept_replace oldTiles (cons_ne_nil _ _) outside kept
  rw [append_assoc] at result contents
  exact ⟨result, contents⟩

theorem setUsedFlag
    (represents : Represents region heap (front ++ ⟨address, size, .loose⟩ :: back) listed) :
    Represents region (Memory.setUsedFlag heap address)
        (front ++ ⟨address, size, .used false⟩ :: back) listed ∧
      Kept heap (Memory.setUsedFlag heap address)
        (front ++ ⟨address, size, .used false⟩ :: back) := by
  have member : ⟨address, size, .loose⟩ ∈ front ++ (⟨address, size, .loose⟩ : Block) :: back :=
    mem_append_right _ mem_cons_self
  obtain ⟨-, -, -, small⟩ := represents.layout.bounds member
  have word : heap.sizeAndFlag address = size := represents.sizeAndFlag_eq member
  have result : Memory.setUsedFlag heap address =
      heap.setSizeAndFlag address (Block.word ⟨address, size, .used false⟩) := by
    unfold Memory.setUsedFlag
    rw [word, or_usedFlag (small.trans (by decide))]
    rfl
  rw [result]
  exact represents.setWord (by decide) (by decide)

theorem setAlignedFlag
    (represents : Represents region heap (front ++ ⟨address, size, .used false⟩ :: back) listed) :
    Represents region (Memory.setAlignedFlag heap address)
        (front ++ ⟨address, size, .used true⟩ :: back) listed ∧
      Kept heap (Memory.setAlignedFlag heap address)
        (front ++ ⟨address, size, .used true⟩ :: back) := by
  have member : ⟨address, size, .used false⟩ ∈
      front ++ (⟨address, size, .used false⟩ : Block) :: back :=
    mem_append_right _ mem_cons_self
  obtain ⟨-, -, -, small⟩ := represents.layout.bounds member
  have word : heap.sizeAndFlag address = size + 2 ^ 31 := represents.sizeAndFlag_eq member
  have result : Memory.setAlignedFlag heap address =
      heap.setSizeAndFlag address (Block.word ⟨address, size, .used true⟩) := by
    unfold Memory.setAlignedFlag
    rw [word, or_alignedFlag small, Nat.add_assoc]
    rfl
  rw [result]
  exact represents.setWord (by decide) (by decide)

theorem mergeNode_eq {following : Nat} (represents : Represents region heap
      (front ++ ⟨address, size, .loose⟩ :: ⟨address + size, following, .loose⟩ :: back) listed) :
    osMemMergeNode heap (address + size) =
      (heap.setSizeAndFlag address (size + following)).setPtrPrev (address + size + following)
        address := by
  obtain ⟨wide, -, word, link⟩ := represents.layout.headed ⟨address, size, .loose⟩
    (mem_append_right _ mem_cons_self)
  obtain ⟨-, -, wordNext, -⟩ := represents.layout.headed ⟨address + size, following, .loose⟩
    (mem_append_right _ (mem_cons_of_mem _ mem_cons_self))
  have wide' : 16 ≤ size := wide
  have prevNode : heap.ptrPrev (address + size) = address := link
  have prevWord : heap.sizeAndFlag address = size := word
  have nodeWord : heap.sizeAndFlag (address + size) = following := wordNext
  have stillWord : (heap.setSizeAndFlag address (size + following)).sizeAndFlag
      (address + size) = following :=
    (update_of_ne (show address + size + 4 ≠ address + 4 by omega) _ _).trans nodeWord
  have stillPrev : (heap.setSizeAndFlag address (size + following)).ptrPrev
      (address + size) = address :=
    (update_of_ne (show address + size ≠ address + 4 by omega) _ _).trans prevNode
  unfold osMemMergeNode
  simp only [prevNode, prevWord, nodeWord, stillWord, stillPrev]

theorem mergeNode {following : Nat} (represents : Represents region heap
      (front ++ ⟨address, size, .loose⟩ :: ⟨address + size, following, .loose⟩ :: back) listed) :
    Represents region (osMemMergeNode heap (address + size))
        (front ++ ⟨address, size + following, .loose⟩ :: back) listed ∧
      Kept heap (osMemMergeNode heap (address + size))
        (front ++ ⟨address, size + following, .loose⟩ :: back) := by
  obtain ⟨wide, whole, -, -⟩ := represents.layout.headed ⟨address, size, .loose⟩
    (mem_append_right _ mem_cons_self)
  obtain ⟨wideNext, wholeNext, -, -⟩ := represents.layout.headed ⟨address + size, following, .loose⟩
      (mem_append_right _ (mem_cons_of_mem _ mem_cons_self))
  have wide' : 16 ≤ size := wide
  have wideNext' : 16 ≤ following := wideNext
  let memory' := update (update heap.memory (address + 4) (size + following))
    (address + size + following) address
  have result : osMemMergeNode heap (address + size) = { heap with memory := memory' } :=
    represents.mergeNode_eq
  have grouped : Represents region heap
      (front ++ [⟨address, size, .loose⟩, ⟨address + size, following, .loose⟩] ++ back) listed := by
    rwa [append_assoc]
  have oldTiles : Tiles Block.address Block.size address
      [⟨address, size, .loose⟩, ⟨address + size, following, .loose⟩]
      (address + size + following) :=
    ⟨rfl, Nat.lt_of_lt_of_le (by decide) wide', rfl, Nat.lt_of_lt_of_le (by decide) wideNext', rfl⟩
  have newTiles : Tiles Block.address Block.size address
      [⟨address, size + following, .loose⟩] (address + size + following) :=
    ⟨rfl, Nat.add_pos_left (Nat.lt_of_lt_of_le (by decide) wide') _, (Nat.add_assoc _ _ _).symm⟩
  have outside : ∀ place, place ≤ address ∨ address + size + following < place →
      memory' place = heap.memory place := fun place away =>
    (update_of_ne (by omega) _ _).trans (update_of_ne (by omega) _ _)
  have headed : ∀ block ∈ [(⟨address, size + following, .loose⟩ : Block)],
      Headed memory' block := by
    intro block inNew
    obtain rfl := mem_singleton.mp inNew
    refine ⟨Nat.le_trans wide (Nat.le_add_right _ _), Nat.dvd_add whole wholeNext, ?_, ?_⟩
    · exact (update_of_ne (show address + 4 ≠ address + size + following by omega) _
        _).trans (update_self _ _ _)
    · show memory' (address + (size + following)) = address
      rw [← Nat.add_assoc]
      exact update_self _ _ _
  have kept : Kept heap { heap with memory := memory' }
      [(⟨address, size + following, .loose⟩ : Block)] := by
    intro block inNew _ place lower upper
    obtain rfl := mem_singleton.mp inNew
    have lower' : address + 8 ≤ place := lower
    have upper' : place < address + (size + following) := upper
    exact (update_of_ne (by omega) _ _).trans (update_of_ne (by omega) _ _)
  rw [result]
  have replaced := grouped.replace oldTiles (cons_ne_nil _ _) newTiles headed outside
    (fun block inOld => by
      rcases mem_cons.mp inOld with rfl | inTail
      · exact nofun
      · rw [mem_singleton.mp inTail]
        exact nofun)
    fun block inNew => by rw [mem_singleton.mp inNew]; exact nofun
  have contents := grouped.kept_replace oldTiles (cons_ne_nil _ _) outside kept
  rw [append_assoc] at replaced contents
  exact ⟨replaced, contents⟩

end Represents

/-- The sizes that `OsMemSplitNode` writes. -/
def splitSizes (pool : Heap) (allocNode allocSize : Nat) : Heap :=
  let newFreeNode := allocNode + allocSize
  let pool := pool.setPtrPrev newFreeNode allocNode
  let pool := pool.setSizeAndFlag newFreeNode (pool.sizeAndFlag allocNode - allocSize)
  pool.setSizeAndFlag allocNode allocSize

/-- The heads that `OsMemSplitNode` writes before it looks at the next node. -/
def splitHead (pool : Heap) (allocNode allocSize : Nat) : Heap :=
  let newFreeNode := allocNode + allocSize
  let pool := splitSizes pool allocNode allocSize
  pool.setPtrPrev (pool.nextNode newFreeNode) newFreeNode

theorem splitSizes_nextNode {heap : Heap} {address size allocSize : Nat}
    (word : heap.sizeAndFlag address = size) (small : size < 2 ^ 30) (wide : 16 ≤ allocSize)
    (room : allocSize ≤ size) :
    (splitSizes heap address allocSize).nextNode (address + allocSize) = address + size := by
  let first := heap.setPtrPrev (address + allocSize) address
  have firstWord : first.sizeAndFlag address = size :=
    (update_of_ne (show address + 4 ≠ address + allocSize by omega) _ _).trans word
  have newWord : (splitSizes heap address allocSize).sizeAndFlag (address + allocSize) =
      size - allocSize := by
    refine (update_of_ne (show address + allocSize + 4 ≠ address + 4 by omega) _ _).trans
      ((update_self _ _ _).trans ?_)
    exact congrArg (· - allocSize) firstWord
  unfold Heap.nextNode
  rw [osMemNodeGetSize_eq, Nat.mod_eq_of_lt (by omega)]
  omega

namespace Represents

variable {region : Region} {heap : Heap} {front back : List Block}
  {listed : Nat → List Nat} {address size allocSize : Nat}

theorem splitHead (represents : Represents region heap (front ++ ⟨address, size, .loose⟩ :: back)
      listed) (wide : 16 ≤ allocSize) (whole : 4 ∣ allocSize) (room : allocSize + 16 ≤ size) :
    Represents region (Memory.splitHead heap address allocSize)
        (front ++ ⟨address, allocSize, .loose⟩ ::
          ⟨address + allocSize, size - allocSize, .loose⟩ :: back) listed ∧
      Kept heap (Memory.splitHead heap address allocSize) (front ++ ⟨address, allocSize, .loose⟩ ::
          ⟨address + allocSize, size - allocSize, .loose⟩ :: back) := by
  have member : ⟨address, size, .loose⟩ ∈ front ++ (⟨address, size, .loose⟩ : Block) :: back :=
    mem_append_right _ mem_cons_self
  obtain ⟨-, wholeSize, word, -⟩ := represents.layout.headed _ member
  obtain ⟨-, -, -, small⟩ := represents.layout.bounds member
  have small' : size < 2 ^ 30 := small
  let memory' := update (update (update (update heap.memory
    (address + allocSize) address) (address + allocSize + 4) (size - allocSize)) (address + 4)
    allocSize) (address + size) (address + allocSize)
  have result : Memory.splitHead heap address allocSize = { heap with memory := memory' } := by
    have firstWord : (heap.setPtrPrev (address + allocSize) address).sizeAndFlag address = size :=
      (update_of_ne (show address + 4 ≠ address + allocSize by omega) _ _).trans word
    have next := splitSizes_nextNode (show heap.sizeAndFlag address = size from word) small' wide
      (Nat.le_of_add_right_le room)
    unfold Memory.splitHead
    simp only [next]
    unfold splitSizes
    simp only [firstWord]
    rfl
  have single : Represents region heap (front ++ [⟨address, size, .loose⟩] ++ back) listed := by
    rwa [append_assoc]
  have oldTiles : Tiles Block.address Block.size address [⟨address, size, .loose⟩]
      (address + size) := ⟨rfl, show 0 < size by omega, rfl⟩
  have newTiles : Tiles Block.address Block.size address
      [⟨address, allocSize, .loose⟩, ⟨address + allocSize, size - allocSize, .loose⟩]
      (address + size) :=
    ⟨rfl, show 0 < allocSize by omega, rfl, show 0 < size - allocSize by omega,
      show address + allocSize + (size - allocSize) = address + size by omega⟩
  have outside : ∀ place, place ≤ address ∨ address + size < place →
      memory' place = heap.memory place := fun place away =>
    (((update_of_ne (by omega) _ _).trans (update_of_ne (by omega) _ _)).trans
      (update_of_ne (by omega) _ _)).trans (update_of_ne (by omega) _ _)
  have headed : ∀ block ∈ [(⟨address, allocSize, .loose⟩ : Block),
      ⟨address + allocSize, size - allocSize, .loose⟩], Headed memory' block := by
    intro block inNew
    rcases mem_cons.mp inNew with rfl | inTail
    · refine ⟨wide, whole, ?_, ?_⟩
      · exact (update_of_ne (show address + 4 ≠ address + size by omega) _ _).trans
          (update_self _ _ _)
      · refine ((update_of_ne (show address + allocSize ≠ address + size by omega) _
          _).trans (update_of_ne (show address + allocSize ≠ address + 4 by omega) _
          _)).trans ((update_of_ne ?_ _ _).trans (update_self _ _ _))
        omega
    · obtain rfl := mem_singleton.mp inTail
      refine ⟨show 16 ≤ size - allocSize by omega, Nat.dvd_sub wholeSize whole, ?_, ?_⟩
      · refine ((update_of_ne ?_ _ _).trans (update_of_ne ?_ _ _)).trans (update_self _ _ _)
        · show address + allocSize + 4 ≠ address + size
          omega
        · show address + allocSize + 4 ≠ address + 4
          omega
      · show memory' (address + allocSize + (size - allocSize)) = address + allocSize
        rw [show address + allocSize + (size - allocSize) = address + size by omega]
        exact update_self _ _ _
  have kept : Kept heap { heap with memory := memory' } [(⟨address, allocSize, .loose⟩ : Block),
      ⟨address + allocSize, size - allocSize, .loose⟩] := by
    intro block inNew _ place lower upper
    have away : place ≠ address + size ∧ place ≠ address + 4 ∧ place ≠ address + allocSize + 4 ∧
        place ≠ address + allocSize := by
      rcases mem_cons.mp inNew with rfl | inTail
      · have lower' : address + 8 ≤ place := lower
        have upper' : place < address + allocSize := upper
        omega
      obtain rfl := mem_singleton.mp inTail
      have lower' : address + allocSize + 8 ≤ place := lower
      have upper' : place < address + allocSize + (size - allocSize) := upper
      omega
    exact (((update_of_ne away.1 _ _).trans (update_of_ne away.2.1 _ _)).trans
      (update_of_ne away.2.2.1 _ _)).trans (update_of_ne away.2.2.2 _ _)
  rw [result]
  have replaced := single.replace oldTiles (cons_ne_nil _ _) newTiles headed outside
    (fun block inOld => by rw [mem_singleton.mp inOld]; exact nofun)
    fun block inNew => by
      rcases mem_cons.mp inNew with rfl | inTail
      · exact nofun
      · rw [mem_singleton.mp inTail]
        exact nofun
  have contents := single.kept_replace oldTiles (cons_ne_nil _ _) outside kept
  rw [append_assoc] at replaced contents
  exact ⟨replaced, contents⟩

end Represents

end TowerSafe.Memory
