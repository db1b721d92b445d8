/-
This file proves what the operations of the allocator do to the blocks. Each of them is a
sequence of moves: it takes a node into its hands, joins the free neighbours to it or cuts the
rest off, and lets it go as a used or as a free node. A move is one lemma; in between, every
other node keeps what it is and what it holds.
-/

import TowerSafe.Memory.Traces

namespace TowerSafe.Memory

open Library
open List

/-! ### States between moves -/

def Settled (blocks : List Block) : Prop := ∀ block ∈ blocks, block.kind ≠ .loose

/-- No two physically adjacent nodes are both free. -/
def Separate (blocks : List Block) : Prop :=
  ∀ first ∈ blocks, ∀ second ∈ blocks, first.kind = .free → second.kind = .free →
    first.stop ≠ second.address

/-- The heap between two calls. -/
structure AtRest (region : Region) (heap : Heap) (blocks : List Block) : Prop where
  represents : ∃ listed, Represents region heap blocks listed
  settled : Settled blocks
  separate : Separate blocks

/-- The heap while the allocator has one node in its hands. -/
structure Holding (region : Region) (heap : Heap) (front : List Block) (address size : Nat)
    (back : List Block) : Prop where
  represents : ∃ listed, Represents region heap (front ++ ⟨address, size, .loose⟩ :: back) listed
  separate : Separate (front ++ back)

/-- The used nodes stay, and so do their contents. -/
structure Moves (heap heap' : Heap) (others others' : List Block) : Prop where
  held : ∀ block, block.kind ≠ .free → (block ∈ others' ↔ block ∈ others)
  kept : Kept heap heap' others'

theorem Moves.refl (heap : Heap) (others : List Block) : Moves heap heap others others :=
  ⟨fun _ _ => Iff.rfl, fun _ _ _ _ _ _ => rfl⟩

variable {heap' : Heap} {others others' : List Block}

theorem Moves.trans {heap heap'' : Heap} {others'' : List Block}
    (first : Moves heap heap' others others') (second : Moves heap' heap'' others' others'') :
    Moves heap heap'' others others'' where
  held := fun block held => (second.held block held).trans (first.held block held)
  kept := first.kept.trans second.kept fun block member held =>
    (second.held block held).mp member

theorem Moves.settled {heap : Heap}
    (moves : Moves heap heap' others others') (settled : Settled others) : Settled others' :=
  fun block member isLoose => by
    have held : block.kind ≠ .free := by
      rw [isLoose]
      exact nofun
    exact settled block ((moves.held block held).mp member) isLoose

variable {block : Block}

theorem Settled.around {front back : List Block}
    (settled : Settled (front ++ block :: back)) : Settled (front ++ back) :=
  fun other member => by
    refine settled other ?_
    rcases mem_append.mp member with inFront | inBack
    · exact mem_append_left _ inFront
    · exact mem_append_right _ (mem_cons_of_mem _ inBack)

theorem Settled.insert {front back : List Block} (settled : Settled (front ++ back))
    (held : block.kind ≠ .loose) : Settled (front ++ block :: back) := fun other member => by
  rcases mem_append.mp member with inFront | inRest
  · exact settled other (mem_append_left _ inFront)
  · rcases mem_cons.mp inRest with rfl | inBack
    · exact held
    · exact settled other (mem_append_right _ inBack)

theorem usedFlag_word (small : block.size < 2 ^ 30) :
    osMemNodeGetUsedFlag block.word = 0 ↔ block.kind = .free ∨ block.kind = .loose := by
  rw [osMemNodeGetUsedFlag_eq_zero_iff]
  unfold Block.word
  cases kind : block.kind with
  | free =>
    have flags : NodeKind.free.flags = 0 := rfl
    exact iff_of_true (by omega) (.inl rfl)
  | loose =>
    have flags : NodeKind.loose.flags = 0 := rfl
    exact iff_of_true (by omega) (.inr rfl)
  | used aligned =>
    refine iff_of_false ?_ (by simp)
    cases aligned with
    | false =>
      have flags : (NodeKind.used false).flags = 2 ^ 31 := rfl
      omega
    | true =>
      have flags : (NodeKind.used true).flags = 2 ^ 31 + 2 ^ 30 := rfl
      omega

theorem size_word (small : block.size < 2 ^ 30) : osMemNodeGetSize block.word = block.size := by
  rw [osMemNodeGetSize_eq]
  unfold Block.word
  cases block.kind with
  | free =>
    have flags : NodeKind.free.flags = 0 := rfl
    omega
  | loose =>
    have flags : NodeKind.loose.flags = 0 := rfl
    omega
  | used aligned =>
    cases aligned with
    | false =>
      have flags : (NodeKind.used false).flags = 2 ^ 31 := rfl
      omega
    | true =>
      have flags : (NodeKind.used true).flags = 2 ^ 31 + 2 ^ 30 := rfl
      omega

variable {region : Region} {heap : Heap} {blocks front back : List Block} {address size : Nat}

theorem separate_insert (layout : Layout region heap (front ++ block :: back))
    (others : Separate (front ++ back))
    (before : ∀ other ∈ front, other.stop = block.address → other.kind ≠ .free)
    (after : ∀ other ∈ back, other.address = block.stop → other.kind ≠ .free) :
    Separate (front ++ block :: back) := by
  obtain ⟨start, frontTiles, rfl, positive, backTiles⟩ := tiles_append.mp layout.tiles
  have stopEq : block.stop = block.address + block.size := rfl
  have cases : ∀ other ∈ front ++ block :: back,
      other ∈ front ∨ other = block ∨ other ∈ back := fun other member => by
    rcases mem_append.mp member with inFront | inRest
    · exact .inl inFront
    · exact .inr (mem_cons.mp inRest)
  have bound : ∀ other ∈ front, other.stop ≤ block.address ∧ other.address < block.address :=
    fun other inFront => by
      obtain ⟨-, upper, nonempty⟩ := frontTiles.bounds inFront
      exact ⟨upper, by omega⟩
  have bound' : ∀ other ∈ back, block.stop ≤ other.address ∧ block.stop < other.stop :=
    fun other inBack => by
      obtain ⟨lower, -, nonempty⟩ := backTiles.bounds inBack
      have otherStop : other.stop = other.address + other.size := rfl
      exact ⟨lower, by omega⟩
  intro first firstMember second secondMember firstFree secondFree adjacent
  rcases cases first firstMember with inFront | rfl | inBack
  · rcases cases second secondMember with inFront' | rfl | inBack'
    · exact others first (mem_append_left _ inFront) second (mem_append_left _ inFront')
        firstFree secondFree adjacent
    · exact before first inFront adjacent firstFree
    · exact others first (mem_append_left _ inFront) second
        (mem_append_right _ inBack') firstFree secondFree adjacent
  · rcases cases second secondMember with inFront' | same | inBack'
    · have less := (bound second inFront').2
      omega
    · rw [same] at adjacent
      omega
    · exact after second inBack' adjacent.symm secondFree
  · rcases cases second secondMember with inFront' | rfl | inBack'
    · have less := (bound second inFront').2
      have greater := (bound' first inBack).2
      omega
    · have greater := (bound' first inBack).2
      omega
    · exact others first (mem_append_right _ inBack) second
        (mem_append_right _ inBack') firstFree secondFree adjacent

variable {blocks' : List Block}

theorem Separate.subset {blocks : List Block} (separate : Separate blocks)
    (within : ∀ block ∈ blocks', block.kind = .free → block ∈ blocks) : Separate blocks' :=
  fun first firstMember second secondMember firstFree secondFree =>
    separate first (within first firstMember firstFree) second
      (within second secondMember secondFree) firstFree secondFree

/-! ### Moves -/

theorem AtRest.take (rest : AtRest region heap (front ++ ⟨address, size, .free⟩ :: back)) :
    Holding region (osMemFreeNodeDelete heap address) front address size back ∧
      Moves heap (osMemFreeNodeDelete heap address) (front ++ ⟨address, size, .free⟩ :: back)
        (front ++ back) := by
  obtain ⟨listed, represents⟩ := rest.represents
  obtain ⟨taken, kept⟩ := represents.freeNodeDelete
  have within : ∀ block ∈ front ++ back, block ∈ front ++ ⟨address, size, .free⟩ :: back :=
    fun block member => by
      rcases mem_append.mp member with inFront | inBack
      · exact mem_append_left _ inFront
      · exact mem_append_right _ (mem_cons_of_mem _ inBack)
  refine ⟨⟨taken, rest.separate.subset fun block member _ => within block member⟩,
    fun block held => ?_,
    fun block member => ?_⟩
  · simp only [mem_append, mem_cons]
    refine or_congr_right (or_iff_right ?_).symm
    rintro rfl
    exact held rfl
  · refine kept block ?_
    rcases mem_append.mp member with inFront | inBack
    · exact mem_append_left _ inFront
    · exact mem_append_right _ (mem_cons_of_mem _ inBack)

theorem Holding.mark (holding : Holding region heap front address size back)
    (settled : Settled (front ++ back)) :
    AtRest region (setUsedFlag heap address) (front ++ ⟨address, size, .used false⟩ :: back) ∧
      Moves heap (setUsedFlag heap address) (front ++ back) (front ++ back) ∧
      ∀ place, address + 8 ≤ place → place < address + size →
        (setUsedFlag heap address).memory place = heap.memory place := by
  obtain ⟨listed, represents⟩ := holding.represents
  obtain ⟨marked, kept⟩ := represents.setUsedFlag
  refine ⟨⟨⟨listed, marked⟩, settled.insert nofun, ?_⟩, ⟨fun _ _ => Iff.rfl, ?_⟩, ?_⟩
  · refine holding.separate.subset fun block member isFree => ?_
    rcases mem_append.mp member with inFront | inRest
    · exact mem_append_left _ inFront
    · rcases mem_cons.mp inRest with rfl | inBack
      · exact nomatch isFree
      · exact mem_append_right _ inBack
  · intro block member
    refine kept block ?_
    rcases mem_append.mp member with inFront | inBack
    · exact mem_append_left _ inFront
    · exact mem_append_right _ (mem_cons_of_mem _ inBack)
  · exact kept _ (mem_append_right _ mem_cons_self) nofun

variable {aligned : Bool}

theorem AtRest.unmark
    (rest : AtRest region heap (front ++ ⟨address, size, .used aligned⟩ :: back)) :
    Holding region (heap.setSizeAndFlag address size) front address size back ∧
      Moves heap (heap.setSizeAndFlag address size) (front ++ back) (front ++ back) ∧
      (∀ place, address + 8 ≤ place → place < address + size →
        (heap.setSizeAndFlag address size).memory place = heap.memory place) ∧
      Trace.Survives region heap (heap.setSizeAndFlag address size)
        (front ++ ⟨address, size, .used aligned⟩ :: back)
        (front ++ ⟨address, size, .loose⟩ :: back) := by
  obtain ⟨listed, represents⟩ := rest.represents
  have within : ∀ block ∈ front ++ back,
      block ∈ front ++ ⟨address, size, .used aligned⟩ :: back := fun block member => by
    rcases mem_append.mp member with inFront | inBack
    · exact mem_append_left _ inFront
    · exact mem_append_right _ (mem_cons_of_mem _ inBack)
  obtain ⟨unmarked, kept⟩ := @Represents.setWord _ _ _ _ _ _ _ (.used aligned) .loose nofun nofun
    represents
  refine ⟨⟨⟨listed, unmarked⟩, rest.separate.subset fun block member _ => within block member⟩,
    ⟨fun _ _ => Iff.rfl, ?_⟩, ?_, Trace.survives_unmark represents⟩
  · intro block member
    refine kept block ?_
    rcases mem_append.mp member with inFront | inBack
    · exact mem_append_left _ inFront
    · exact mem_append_right _ (mem_cons_of_mem _ inBack)
  · exact kept _ (mem_append_right _ mem_cons_self) nofun

theorem Holding.release (holding : Holding region heap front address size back)
    (before : ∀ other ∈ front, other.stop = address → other.kind ≠ .free)
    (after : ∀ other ∈ back, other.address = address + size → other.kind ≠ .free) :
    (∃ listed, Represents region (osMemFreeNodeAdd heap address)
        (front ++ ⟨address, size, .free⟩ :: back) listed) ∧
      Separate (front ++ ⟨address, size, .free⟩ :: back) ∧
      Moves heap (osMemFreeNodeAdd heap address) (front ++ back)
        (front ++ ⟨address, size, .free⟩ :: back) ∧
      Trace.Survives region heap (osMemFreeNodeAdd heap address)
        (front ++ ⟨address, size, .loose⟩ :: back) (front ++ ⟨address, size, .free⟩ :: back) := by
  obtain ⟨listed, represents⟩ := holding.represents
  obtain ⟨⟨listed', added⟩, kept⟩ := represents.freeNodeAdd
  refine ⟨⟨listed', added⟩, separate_insert added.layout holding.separate before after,
    ⟨fun block held => ?_, kept⟩, Trace.survives_freeNodeAdd represents⟩
  simp only [mem_append, mem_cons]
  refine or_congr_right (or_iff_right ?_)
  rintro rfl
  exact held rfl

/-- What joining a free neighbour to the node after it does, as one heap. -/
def absorb (heap : Heap) (neighbour node : Nat) : Heap :=
  if osMemNodeGetUsedFlag (heap.sizeAndFlag neighbour) = 0 then
    osMemMergeNode (osMemFreeNodeDelete heap neighbour) node
  else heap

theorem Holding.absorbNext (holding : Holding region heap front address size back)
    (settled : Settled back) :
    ∃ total back', Holding region (absorb heap (address + size) (address + size)) front address
        total back' ∧
      Moves heap (absorb heap (address + size) (address + size)) (front ++ back) (front ++ back') ∧
      (∀ place, address + 8 ≤ place → place < address + size →
        (absorb heap (address + size) (address + size)).memory place = heap.memory place) ∧
      size ≤ total ∧
      (osMemNodeGetUsedFlag (heap.sizeAndFlag (address + size)) = 0 →
        total = size + heap.sizeAndFlag (address + size)) ∧
      (∀ other ∈ back', other.address = address + total → other.kind ≠ .free) ∧
      Trace.Survives region heap (absorb heap (address + size) (address + size))
        (front ++ ⟨address, size, .loose⟩ :: back) (front ++ ⟨address, total, .loose⟩ :: back') := by
  obtain ⟨listed, represents⟩ := holding.represents
  have unchanged : osMemNodeGetUsedFlag (heap.sizeAndFlag (address + size)) ≠ 0 →
      absorb heap (address + size) (address + size) = heap := fun used => if_neg used
  rcases represents.layout.after with ⟨rfl, last⟩ | ⟨next, rest, rfl, same⟩
  · have used : osMemNodeGetUsedFlag (heap.sizeAndFlag (address + size)) ≠ 0 := by
      rw [show heap.sizeAndFlag (address + size) = 2 ^ 31 from by
        rw [show address + size = region.last from last]
        exact represents.layout.ending]
      decide
    rw [unchanged used]
    exact ⟨size, [], holding, .refl heap _, fun _ _ _ => rfl, le_rfl,
      fun zero => absurd zero used, (fun _ member => nomatch member), fun _ holds => holds⟩
  · obtain ⟨nextAddress, following, kind⟩ := next
    obtain rfl : nextAddress = address + size := same
    have nextMember : ⟨address + size, following, kind⟩ ∈
        front ++ (⟨address, size, .loose⟩ : Block) :: ⟨address + size, following, kind⟩ :: rest :=
      mem_append_right _ (mem_cons_of_mem _ mem_cons_self)
    have word : heap.sizeAndFlag (address + size) = Block.word ⟨address + size, following, kind⟩ :=
      represents.sizeAndFlag_eq nextMember
    have flag := usedFlag_word (represents.layout.bounds nextMember).2.2.2
    have notLoose : kind ≠ .loose := settled _ mem_cons_self
    by_cases isFree : kind = .free
    · subst isFree
      have regrouped : Represents region heap ((front ++ [⟨address, size, .loose⟩]) ++
          ⟨address + size, following, .free⟩ :: rest) listed := by
        rwa [append_assoc]
      have clear : osMemNodeGetUsedFlag (heap.sizeAndFlag (address + size)) = 0 := by
        rw [word]
        exact flag.mpr (.inl rfl)
      have joined : absorb heap (address + size) (address + size) =
          osMemMergeNode (osMemFreeNodeDelete heap (address + size)) (address + size) :=
        if_pos clear
      obtain ⟨⟨listed', taken⟩, takenKept⟩ := regrouped.freeNodeDelete
      have survives := Trace.survives_freeNodeDelete regrouped
      rw [append_assoc] at taken takenKept
      simp only [append_assoc] at survives
      obtain ⟨merged, mergedKept⟩ := taken.mergeNode
      rw [joined]
      have within : ∀ block ∈ front ++ rest,
          block ∈ front ++ (⟨address + size, following, .free⟩ : Block) :: rest :=
        fun block member => by
          rcases mem_append.mp member with inFront | inRest
          · exact mem_append_left _ inFront
          · exact mem_append_right _ (mem_cons_of_mem _ inRest)
      refine ⟨size + following, rest, ⟨⟨listed', merged⟩,
        holding.separate.subset fun block member _ => within block member⟩,
        ⟨fun block held => ?_, fun block member held place lower upper => ?_⟩,
        fun place lower upper => ?_, Nat.le_add_right _ _, fun _ => ?_, fun other member atEnd => ?_,
        fun trace holds => Trace.survives_mergeNode taken trace (survives trace holds)⟩
      · simp only [mem_append, mem_cons]
        refine or_congr_right (or_iff_right ?_).symm
        rintro rfl
        exact held rfl
      · rcases mem_append.mp member with inFront | inRest
        · exact (mergedKept block (mem_append_left _ inFront) held place lower upper).trans
            (takenKept block (mem_append_left _ inFront) held place lower upper)
        · exact (mergedKept block (mem_append_right _ (mem_cons_of_mem _ inRest)) held
            place lower upper).trans (takenKept block (mem_append_right _
              (mem_cons_of_mem _ (mem_cons_of_mem _ inRest))) held place lower upper)
      · refine (mergedKept _ (mem_append_right _ mem_cons_self) nofun place lower
          ?_).trans (takenKept _ (mem_append_right _ mem_cons_self) nofun place lower upper)
        show place < address + (size + following)
        omega
      · rw [word]
        rfl
      · intro otherFree
        refine holding.separate ⟨address + size, following, .free⟩
          (mem_append_right _ mem_cons_self) other
          (mem_append_right _ (mem_cons_of_mem _ member)) rfl otherFree ?_
        rw [atEnd, ← Nat.add_assoc]
        rfl
    · have used : osMemNodeGetUsedFlag (heap.sizeAndFlag (address + size)) ≠ 0 := by
        rw [word]
        exact fun zero => (flag.mp zero).elim isFree notLoose
      rw [unchanged used]
      refine ⟨size, _, holding, .refl heap _, fun _ _ _ => rfl, le_rfl,
        fun zero => absurd zero used, fun other member atEnd otherFree => isFree ?_,
        fun _ holds => holds⟩
      have otherMember : other ∈
          front ++ (⟨address, size, .loose⟩ : Block) :: ⟨address + size, following, kind⟩ :: rest :=
        mem_append_right _ (mem_cons_of_mem _ member)
      have equal := represents.layout.eq_of_address_eq otherMember nextMember atEnd
      exact (congrArg Block.kind equal).symm.trans otherFree

theorem Holding.absorbPrevious (holding : Holding region heap front address size back)
    (settled : Settled front) : heap.ptrPrev address ≠ 0 ∧ ∃ front' address' total,
      (if osMemNodeGetUsedFlag (heap.sizeAndFlag (heap.ptrPrev address)) = 0 then
        heap.ptrPrev address else address) = address' ∧
      Holding region (absorb heap (heap.ptrPrev address) address) front' address' total back ∧
      Moves heap (absorb heap (heap.ptrPrev address) address) (front ++ back) (front' ++ back) ∧
      (∀ other ∈ front', other.stop = address' → other.kind ≠ .free) ∧
      Trace.Survives region heap (absorb heap (heap.ptrPrev address) address)
        (front ++ ⟨address, size, .loose⟩ :: back)
        (front' ++ ⟨address', total, .loose⟩ :: back) := by
  obtain ⟨listed, represents⟩ := holding.represents
  have unchanged : osMemNodeGetUsedFlag (heap.sizeAndFlag (heap.ptrPrev address)) ≠ 0 →
      absorb heap (heap.ptrPrev address) address = heap := fun used => if_neg used
  obtain ⟨firstReal, -, -, firstLast, -, -⟩ := region.facts
  rcases represents.layout.before with ⟨rfl, first⟩ | ⟨init, previous, rfl, same⟩
  · have atFirst : address = region.first := first
    have prev : heap.ptrPrev address = region.last := by
      rw [atFirst]
      exact represents.layout.firstBack
    have used : osMemNodeGetUsedFlag (heap.sizeAndFlag (heap.ptrPrev address)) ≠ 0 := by
      rw [prev, show heap.sizeAndFlag region.last = 2 ^ 31 from represents.layout.ending]
      decide
    refine ⟨by omega, [], address, size, if_neg used, ?_⟩
    rw [unchanged used]
    exact ⟨holding, .refl heap _, (fun _ member => nomatch member), fun _ holds => holds⟩
  · obtain ⟨prevAddress, preceding, kind⟩ := previous
    obtain rfl : prevAddress + preceding = address := same
    have prevMember : ⟨prevAddress, preceding, kind⟩ ∈ (init ++ [⟨prevAddress, preceding, kind⟩]) ++
        (⟨prevAddress + preceding, size, .loose⟩ : Block) :: back :=
      mem_append_left _ (mem_append_right _ mem_cons_self)
    obtain ⟨-, -, word, link⟩ := represents.layout.headed _ prevMember
    have prev : heap.ptrPrev (prevAddress + preceding) = prevAddress := link
    have prevWord : heap.sizeAndFlag prevAddress = Block.word ⟨prevAddress, preceding, kind⟩ := word
    have lower : region.first ≤ prevAddress := (represents.layout.bounds prevMember).1
    have flag := usedFlag_word (represents.layout.bounds prevMember).2.2.2
    have notLoose : kind ≠ .loose := settled _ (mem_append_right _ mem_cons_self)
    rw [prev, prevWord]
    refine ⟨by omega, ?_⟩
    by_cases isFree : kind = .free
    · subst isFree
      have clear := flag.mpr (.inl rfl)
      have joined : absorb heap prevAddress (prevAddress + preceding) =
          osMemMergeNode (osMemFreeNodeDelete heap prevAddress) (prevAddress + preceding) :=
        if_pos (by rw [prevWord]; exact clear)
      have regrouped : Represents region heap (init ++ ⟨prevAddress, preceding, .free⟩ ::
          ⟨prevAddress + preceding, size, .loose⟩ :: back) listed := by
        rwa [append_assoc] at represents
      obtain ⟨⟨listed', taken⟩, takenKept⟩ := regrouped.freeNodeDelete
      obtain ⟨merged, mergedKept⟩ := taken.mergeNode
      have within : ∀ block ∈ init ++ back,
          block ∈ (init ++ [(⟨prevAddress, preceding, .free⟩ : Block)]) ++ back :=
        fun block member => by
          rcases mem_append.mp member with inInit | inBack
          · exact mem_append_left _ (mem_append_left _ inInit)
          · exact mem_append_right _ inBack
      refine ⟨init, prevAddress, preceding + size, if_pos clear, ?_⟩
      rw [joined]
      refine ⟨⟨⟨listed', merged⟩, holding.separate.subset fun block member _ => within block member⟩,
        ⟨fun block held => ?_, fun block member held place lower upper => ?_⟩,
        fun other member atStart otherFree => ?_, ?_⟩
      · simp only [mem_append, mem_cons, not_mem_nil, or_false]
        refine or_congr_left (or_iff_left ?_).symm
        rintro rfl
        exact held rfl
      · rcases mem_append.mp member with inInit | inBack
        · exact (mergedKept block (mem_append_left _ inInit) held place lower upper).trans
            (takenKept block (mem_append_left _ inInit) held place lower upper)
        · exact (mergedKept block (mem_append_right _ (mem_cons_of_mem _ inBack)) held
            place lower upper).trans (takenKept block (mem_append_right _
              (mem_cons_of_mem _ (mem_cons_of_mem _ inBack))) held place lower upper)
      · exact holding.separate other (mem_append_left _ (mem_append_left _ member))
          ⟨prevAddress, preceding, .free⟩
          (mem_append_left _ (mem_append_right _ mem_cons_self)) otherFree rfl atStart
      · rw [append_assoc]
        exact fun trace holds => Trace.survives_mergeNode taken trace
          (Trace.survives_freeNodeDelete regrouped trace holds)
    · have used : osMemNodeGetUsedFlag (Block.word ⟨prevAddress, preceding, kind⟩) ≠ 0 :=
        fun zero => (flag.mp zero).elim isFree notLoose
      have same : absorb heap prevAddress (prevAddress + preceding) = heap :=
        if_neg (by rw [prevWord]; exact used)
      refine ⟨init ++ [⟨prevAddress, preceding, kind⟩], prevAddress + preceding, size,
        if_neg used, ?_⟩
      rw [same]
      refine ⟨holding, .refl heap _, fun other member atStart otherFree => isFree ?_,
        fun _ holds => holds⟩
      have otherMember := mem_append_left
        ((⟨prevAddress + preceding, size, .loose⟩ : Block) :: back) member
      have otherBounds := represents.layout.bounds otherMember
      have prevBounds := represents.layout.bounds prevMember
      have prevStop : Block.stop ⟨prevAddress, preceding, kind⟩ = prevAddress + preceding := rfl
      rcases represents.layout.apart otherMember prevMember with equal | before | after
      · rw [equal] at otherFree
        exact otherFree
      · have le : other.stop ≤ prevAddress := before
        have wide : 16 ≤ preceding := prevBounds.2.2.1
        omega
      · have otherStop : other.stop = other.address + other.size := rfl
        omega

/-! ### Cutting -/

/-- `OsMemSplitNode` when the rest is large enough for a node. -/
def trim (heap : Heap) (node allocSize size : Nat) : Heap :=
  if allocSize + osMemMinLeftSize ≤ size then osMemSplitNode heap node allocSize else heap

theorem Holding.trim {allocSize : Nat} (holding : Holding region heap front address size back)
    (settled : Settled back) (wide : 16 ≤ allocSize) (whole : 4 ∣ allocSize)
    (fits : allocSize ≤ size) :
    ∃ left back', Holding region (Memory.trim heap address allocSize size) front address left
        back' ∧
      Moves heap (Memory.trim heap address allocSize size) (front ++ back) (front ++ back') ∧
      (∀ place, address + 8 ≤ place → place < address + allocSize →
        (Memory.trim heap address allocSize size).memory place = heap.memory place) ∧
      allocSize ≤ left := by
  by_cases room : allocSize + 16 ≤ size
  · obtain ⟨listed, represents⟩ := holding.represents
    have member : ⟨address, size, .loose⟩ ∈ front ++ (⟨address, size, .loose⟩ : Block) :: back :=
      mem_append_right _ mem_cons_self
    have small : size < 2 ^ 30 := (represents.layout.bounds member).2.2.2
    have word : heap.sizeAndFlag address = size := represents.sizeAndFlag_eq member
    obtain ⟨cut, cutKept⟩ := represents.splitHead wide whole room
    let heap' := splitHead heap address allocSize
    have result : Memory.trim heap address allocSize size =
        osMemFreeNodeAdd (absorb heap' (address + size) (address + size)) (address + allocSize) := by
      have next := splitSizes_nextNode word small wide fits
      have split : osMemSplitNode heap address allocSize = osMemFreeNodeAdd (absorb heap'
            ((splitSizes heap address allocSize).nextNode (address + allocSize))
            ((splitSizes heap address allocSize).nextNode (address + allocSize)))
            (address + allocSize) := rfl
      rw [next] at split
      exact (if_pos room).trans split
    have regrouped : Represents region heap' ((front ++ [⟨address, allocSize, .loose⟩]) ++
        ⟨address + allocSize, size - allocSize, .loose⟩ :: back) listed := by
      rw [append_assoc]
      exact cut
    have second : Holding region heap' (front ++ [⟨address, allocSize, .loose⟩])
        (address + allocSize) (size - allocSize) back := by
      refine ⟨⟨listed, regrouped⟩, holding.separate.subset fun block inBlocks isFree => ?_⟩
      rcases mem_append.mp inBlocks with inFirst | inBack
      · rcases mem_append.mp inFirst with inFront | inLoose
        · exact mem_append_left _ inFront
        · rw [mem_singleton.mp inLoose] at isFree
          exact nomatch isFree
      · exact mem_append_right _ inBack
    have cutMoves : Moves heap heap' (front ++ [⟨address, allocSize, .loose⟩] ++ back)
        (front ++ [⟨address, allocSize, .loose⟩] ++ back) := by
      refine ⟨fun _ _ => Iff.rfl, fun block inBlocks => cutKept block ?_⟩
      rw [append_assoc] at inBlocks
      rcases mem_append.mp inBlocks with inFront | inRest
      · exact mem_append_left _ inFront
      · rcases mem_cons.mp inRest with rfl | inBack
        · exact mem_append_right _ mem_cons_self
        · exact mem_append_right _ (mem_cons_of_mem _ (mem_cons_of_mem _ inBack))
    have stopEq : address + allocSize + (size - allocSize) = address + size := by omega
    obtain ⟨total, back', absorbed, absorbMoves, -, -, -, after, -⟩ := second.absorbNext settled
    rw [stopEq] at absorbed absorbMoves
    have before : ∀ other ∈ front ++ [(⟨address, allocSize, .loose⟩ : Block)],
        other.stop = address + allocSize → other.kind ≠ .free := by
      intro other inFirst atStart isFree
      rcases mem_append.mp inFirst with inFront | inLoose
      · obtain ⟨start, frontTiles, rfl, -⟩ := tiles_append.mp represents.layout.tiles
        have upper : other.stop ≤ address := (frontTiles.bounds inFront).2.1
        omega
      · rw [mem_singleton.mp inLoose] at isFree
        exact nomatch isFree
    obtain ⟨released, separate, releaseMoves, -⟩ := absorbed.release before after
    have moves := (cutMoves.trans absorbMoves).trans releaseMoves
    rw [← result] at released moves
    have looseMember : ⟨address, allocSize, .loose⟩ ∈ front ++ [⟨address, allocSize, .loose⟩] ++
        (⟨address + allocSize, total, .free⟩ : Block) :: back' :=
      mem_append_left _ (mem_append_right _ mem_cons_self)
    obtain ⟨listed', released⟩ := released
    have within : ∀ block ∈ front ++ (⟨address + allocSize, total, .free⟩ : Block) :: back',
        block ∈ front ++ [⟨address, allocSize, .loose⟩] ++
          (⟨address + allocSize, total, .free⟩ : Block) :: back' := fun block inBlocks => by
      rcases mem_append.mp inBlocks with inFront | inBack
      · exact mem_append_left _ (mem_append_left _ inFront)
      · exact mem_append_right _ inBack
    rw [append_assoc] at released
    refine ⟨allocSize, ⟨address + allocSize, total, .free⟩ :: back', ⟨⟨listed', released⟩,
      separate.subset fun block inBlocks _ => within block inBlocks⟩,
      ⟨fun block held => ?_, fun block inBlocks => moves.kept block (within block inBlocks)⟩,
      moves.kept _ looseMember nofun, le_rfl⟩
    have same := moves.held block held
    rw [append_assoc, append_assoc, singleton_append, singleton_append] at same
    by_cases isCut : block = ⟨address, allocSize, .loose⟩
    · subst isCut
      exact iff_of_false (fun old => released.layout.address_ne old rfl)
        fun old => represents.layout.address_ne old rfl
    · simp only [mem_append, mem_cons, isCut, false_or] at same ⊢
      exact same
  · have same : Memory.trim heap address allocSize size = heap := if_neg room
    rw [same]
    exact ⟨size, back, holding, .refl heap _, fun _ _ _ => rfl, fits⟩

/-! ### Contents and accounting -/

theorem AtRest.count (rest : AtRest region heap blocks) (used water : Nat) :
    AtRest region { heap with curUsedSize := used, waterLine := water } blocks :=
  ⟨rest.represents.imp fun _ represents => represents.congr rfl rfl rfl rfl rfl rfl, rest.settled,
    rest.separate⟩

theorem Moves.count {used water : Nat}
    (moves : Moves { heap with curUsedSize := used, waterLine := water } heap' others others') :
    Moves heap heap' others others' :=
  ⟨moves.held, moves.kept⟩

theorem Holding.count (holding : Holding region heap front address size back) (used water : Nat) :
    Holding region { heap with curUsedSize := used, waterLine := water } front address size back :=
  ⟨holding.represents.imp fun _ represents => represents.congr rfl rfl rfl rfl rfl rfl,
    holding.separate⟩

theorem Moves.counted (moves : Moves heap heap' others others') (used water : Nat) :
    Moves heap { heap' with curUsedSize := used, waterLine := water } others others' :=
  ⟨moves.held, moves.kept⟩

theorem AtRest.scribble {memory' : Nat → Nat} (rest : AtRest region heap blocks) {block : Block}
    (member : block ∈ blocks) (held : block.kind ≠ .free)
    (outside : ∀ place, place < block.address + 8 ∨ block.stop ≤ place →
      memory' place = heap.memory place) : AtRest region { heap with memory := memory' } blocks ∧
      ∀ other ∈ blocks, other ≠ block → ∀ place, other.address ≤ place → place < other.stop →
        memory' place = heap.memory place := by
  obtain ⟨listed, represents⟩ := rest.represents
  have layout := represents.layout
  obtain ⟨lower, upper, -, -⟩ := layout.bounds member
  have others : ∀ other ∈ blocks, other ≠ block → ∀ place, other.address ≤ place →
      place < other.stop → memory' place = heap.memory place := by
    intro other old differ place low high
    refine outside place ?_
    rcases layout.apart old member with same | before | after
    · exact absurd same differ
    · exact .inl (by omega)
    · exact .inr (by omega)
  refine ⟨⟨⟨listed, layout.congr rfl rfl rfl (fun other old => ?_) (fun other old => ?_)
    (outside _ (.inl (by omega))) (outside _ (.inr (by omega))),
    represents.lists.congr rfl rfl fun index bound link isLink => ?_, represents.classed⟩,
    rest.settled, rest.separate⟩, others⟩
  · have otherWide := (layout.bounds old).2.2.1
    have otherStop : other.stop = other.address + other.size := rfl
    by_cases same : other = block
    · exact outside _ (.inl (by rw [same]; omega))
    · exact others other old same _ (by omega) (by omega)
  · refine outside _ ?_
    have otherStop : other.stop = other.address + other.size := rfl
    rcases layout.apart old member with same | before | after
    · exact .inr (by rw [same])
    · exact .inl (by omega)
    · exact .inr (by omega)
  · obtain ⟨other, old, isFree, which⟩ := represents.linkOf_block bound isLink
    have otherWide := (layout.bounds old).2.2.1
    have otherStop : other.stop = other.address + other.size := rfl
    refine others other old (fun same => held (same ▸ isFree)) link (by omega) (by omega)

/-! ### Release -/

section

variable (rest : AtRest region heap (front ++ ⟨address, size, .used aligned⟩ :: back))
include rest

theorem AtRest.checkUsedNode :
    osMemCheckUsedNode heap address = true := by
  obtain ⟨listed, represents⟩ := rest.represents
  have layout := represents.layout
  have member : ⟨address, size, .used aligned⟩ ∈
      front ++ (⟨address, size, .used aligned⟩ : Block) :: back :=
    mem_append_right _ mem_cons_self
  obtain ⟨lower, upper, wide, small⟩ := layout.bounds member
  obtain ⟨-, -, word, link⟩ := layout.headed _ member
  have firstEq : region.first = heap.pool + 944 := by
    rw [layout.pool]
    rfl
  have lastEq : region.last = heap.pool + heap.totalSize - 8 := by
    rw [layout.pool, layout.totalSize]
    rfl
  have addressValid : ∀ place, region.first ≤ place → place ≤ region.last →
      osMemAddrValidCheck heap place = true := fun place low high => by
    unfold osMemAddrValidCheck osMemPoolHeadSize
    rw [Bool.and_eq_true, decide_eq_true_iff, decide_eq_true_iff]
    omega
  have nodeValid : ∀ node, region.first ≤ node → node ≤ region.last →
      osMemNodeGetUsedFlag (heap.sizeAndFlag node) ≠ 0 ∨
        region.first ≤ heap.ptrPrev node ∧ heap.ptrPrev node ≤ region.last →
      osMemIsNodeValid heap node = true := fun node low high which => by
    unfold osMemIsNodeValid
    rw [layout.firstNode_eq, layout.endNode_eq, if_neg (not_not.mpr ⟨low, high⟩)]
    rcases which with used | ⟨prevLow, prevHigh⟩
    · exact if_pos used
    · split
      · rfl
      · exact addressValid _ prevLow prevHigh
  have used : osMemNodeGetUsedFlag (heap.sizeAndFlag address) ≠ 0 := by
    rw [show heap.sizeAndFlag address = Block.word ⟨address, size, .used aligned⟩ from word]
    exact fun zero => ((usedFlag_word small).mp zero).elim nofun nofun
  have next : heap.nextNode address = address + size := by
    unfold Heap.nextNode
    rw [show heap.sizeAndFlag address = Block.word ⟨address, size, .used aligned⟩ from word,
      size_word small]
  have nextPrev : heap.ptrPrev (address + size) = address := link
  have lower' : region.first ≤ address := lower
  have upper' : address + size ≤ region.last := upper
  have previous : address = region.first ∨ osMemIsNodeValid heap (heap.ptrPrev address) = true ∧
        heap.nextNode (heap.ptrPrev address) = address := by
    rcases layout.before with ⟨-, first⟩ | ⟨init, prev, rfl, same⟩
    · exact .inl first
    have prevMember : prev ∈ (init ++ [prev]) ++ (⟨address, size, .used aligned⟩ : Block) :: back :=
      mem_append_left _ (mem_append_right _ mem_cons_self)
    obtain ⟨prevLow, prevHigh, -, prevSmall⟩ := layout.bounds prevMember
    obtain ⟨-, -, prevWord, prevLink⟩ := layout.headed _ prevMember
    have stopEq : prev.stop = address := same
    rw [stopEq] at prevLink
    have prevNode : heap.ptrPrev address = prev.address := prevLink
    have sizeEq : prev.stop = prev.address + prev.size := rfl
    rw [prevNode]
    refine .inr ⟨nodeValid _ prevLow (by omega) (.inr ?_), ?_⟩
    · rw [append_assoc] at layout
      rcases layout.before with ⟨-, first⟩ | ⟨init', prev', rfl, same'⟩
      · rw [first, show heap.ptrPrev region.first = region.last from layout.firstBack]
        omega
      have prevMember' : prev' ∈ (init' ++ [prev']) ++ ([prev] ++
          (⟨address, size, .used aligned⟩ : Block) :: back) :=
        mem_append_left _ (mem_append_right _ mem_cons_self)
      obtain ⟨low, high, -, -⟩ := layout.bounds prevMember'
      obtain ⟨-, -, -, link'⟩ := layout.headed _ prevMember'
      rw [same'] at link'
      rw [show heap.ptrPrev prev.address = prev'.address from link']
      have sizeEq' : prev'.stop = prev'.address + prev'.size := rfl
      omega
    · unfold Heap.nextNode
      rw [show heap.sizeAndFlag prev.address = prev.word from prevWord, size_word prevSmall]
      exact same
  have nextValid : osMemIsNodeValid heap (address + size) = true :=
    nodeValid _ (by omega) upper' (.inr (by omega))
  have thisValid : osMemIsNodeValid heap address = true := nodeValid _ lower' (by omega) (.inl used)
  unfold osMemCheckUsedNode
  rw [next, nextPrev, thisValid, nextValid, layout.firstNode_eq, bne_iff_ne.mpr used,
    beq_self_eq_true]
  rcases previous with first | ⟨prevValid, prevNext⟩
  · rw [first, bne_self_eq_false]
    rfl
  · rw [prevValid, prevNext, bne_self_eq_false, Bool.not_true, Bool.or_false, Bool.and_false]
    rfl

theorem AtRest.osMemFree :
    ∃ blocks', AtRest region (Memory.osMemFree heap address).1 blocks' ∧
      (Memory.osMemFree heap address).2 = true ∧
      Moves heap (Memory.osMemFree heap address).1 (front ++ back) blocks' ∧
      Trace.Survives region heap (Memory.osMemFree heap address).1
        (front ++ ⟨address, size, .used aligned⟩ :: back) blocks' := by
  have valid := rest.checkUsedNode
  obtain ⟨listed, represents⟩ := rest.represents
  have member : ⟨address, size, .used aligned⟩ ∈
      front ++ (⟨address, size, .used aligned⟩ : Block) :: back :=
    mem_append_right _ mem_cons_self
  obtain ⟨-, -, -, small⟩ := represents.layout.bounds member
  have nodeSize : osMemNodeGetSize (heap.sizeAndFlag address) = size := by
    rw [represents.sizeAndFlag_eq member]
    exact size_word small
  let counted := { heap with curUsedSize := u32Sub heap.curUsedSize size }
  obtain ⟨holding, unmarkMoves, -, cleared⟩ :=
    (rest.count (u32Sub heap.curUsedSize size) heap.waterLine).unmark
  have settled : Settled (front ++ back) := rest.settled.around
  let unmarked := counted.setSizeAndFlag address size
  obtain ⟨prevReal, front', address', total, node, holding', prevMoves, before, prevJoined⟩ :=
    holding.absorbPrevious fun block inFront => settled block (mem_append_left _ inFront)
  let joined := absorb unmarked (unmarked.ptrPrev address) address
  obtain ⟨total', back', absorbed, nextMoves, -, -, -, after, nextJoined⟩ := holding'.absorbNext
    fun block inBack => settled block (mem_append_right _ inBack)
  have settled' : Settled (front' ++ back') :=
    ((unmarkMoves.trans prevMoves).trans nextMoves).settled settled
  obtain ⟨released, separate, releaseMoves, added⟩ := absorbed.release before after
  obtain ⟨listed', represents'⟩ := holding'.represents
  have member' : ⟨address', total, .loose⟩ ∈
      front' ++ (⟨address', total, .loose⟩ : Block) :: back :=
    mem_append_right _ mem_cons_self
  obtain ⟨lower', -, -, small'⟩ := represents'.layout.bounds member'
  have nextNode : joined.nextNode address' = address' + total := by
    unfold Heap.nextNode
    rw [show joined.sizeAndFlag address' = total from represents'.sizeAndFlag_eq member',
      osMemNodeGetSize_eq, Nat.mod_eq_of_lt small']
  have firstReal := region.facts.1
  have lower'' : region.first ≤ address' := lower'
  have result : Memory.osMemFree heap address =
      (osMemFreeNodeAdd (absorb joined (address' + total) (address' + total)) address', true) := by
    have prevPart : (if unmarked.ptrPrev address ≠ 0 ∧
          osMemNodeGetUsedFlag (unmarked.sizeAndFlag (unmarked.ptrPrev address)) = 0 then
        (osMemMergeNode (osMemFreeNodeDelete unmarked (unmarked.ptrPrev address)) address,
          unmarked.ptrPrev address)
      else (unmarked, address)) = (joined, address') := by
      by_cases isFree : osMemNodeGetUsedFlag (unmarked.sizeAndFlag (unmarked.ptrPrev address)) = 0
      · rw [if_pos isFree] at node
        rw [if_pos ⟨prevReal, isFree⟩]
        exact congrArg₂ Prod.mk (if_pos isFree).symm node
      · rw [if_neg isFree] at node
        rw [if_neg fun both => isFree both.2]
        exact congrArg₂ Prod.mk (if_neg isFree).symm node
    have nextPart : (if address' + total ≠ 0 ∧
          osMemNodeGetUsedFlag (joined.sizeAndFlag (address' + total)) = 0 then
        osMemMergeNode (osMemFreeNodeDelete joined (address' + total)) (address' + total)
      else joined) = absorb joined (address' + total) (address' + total) := by
      have nonzero : address' + total ≠ 0 := by omega
      unfold absorb
      simp only [nonzero, ne_eq, not_false_eq_true, true_and]
    unfold Memory.osMemFree
    rw [if_pos valid]
    simp only [nodeSize]
    rw [show (if unmarked.ptrPrev address ≠ 0 ∧
          osMemNodeGetUsedFlag (unmarked.sizeAndFlag (unmarked.ptrPrev address)) = 0 then
        (osMemMergeNode (osMemFreeNodeDelete unmarked (unmarked.ptrPrev address)) address,
          unmarked.ptrPrev address)
      else (unmarked, address)) = (joined, address') from prevPart]
    simp only [nextNode]
    rw [nextPart]
  rw [result]
  have countMoves : Moves heap unmarked (front ++ back) (front ++ back) := unmarkMoves.count
  refine ⟨_, ⟨released, releaseMoves.settled settled', separate⟩, rfl,
    (countMoves.trans prevMoves).trans (nextMoves.trans releaseMoves), fun trace holds => ?_⟩
  exact added trace (nextJoined trace (prevJoined trace (cleared trace (holds.congr rfl))))

end

/-! ### Allocation -/

theorem AtRest.classFits (rest : AtRest region heap blocks) {request : Nat}
    (small : request < 2 ^ 29) : ClassFits heap request := by
  obtain ⟨listed, represents⟩ := rest.represents
  rintro index bound ⟨later, found, -⟩
  have member := represents.lists.first_mem bound found
  obtain ⟨length, inBlocks, class'⟩ := (represents.classed index bound _).mp member
  have wide : 16 ≤ length := (represents.layout.bounds inBlocks).2.2.1
  rw [show heap.sizeAndFlag (heap.freeList index) = length from represents.sizeAndFlag_eq inBlocks]
  exact le_of_index_lt (by omega) small (by omega)

theorem AtRest.osMemFreeNodeGet (rest : AtRest region heap blocks) {request : Nat}
    (wide : 4 ≤ request) (whole : 4 ∣ request) (small : request < 2 ^ 31)
    (fits : ClassFits heap request) : Memory.osMemFreeNodeGet heap request = (heap, 0) ∨
      ∃ front back address size, blocks = front ++ ⟨address, size, .free⟩ :: back ∧
        address ≠ 0 ∧ request ≤ size ∧
        Memory.osMemFreeNodeGet heap request = (osMemFreeNodeDelete heap address, address) := by
  obtain ⟨listed, represents⟩ := rest.represents
  let found := osMemFindNextSuitableBlock heap request
  by_cases none : found.1 = 0
  · exact .inl (if_pos none)
  obtain ⟨bound, member, which⟩ := osMemFindNextSuitableBlock_spec represents.lists
    (osMemFreeListIndexGet_lt wide small) none
  obtain ⟨size, inBlocks, class'⟩ := (represents.classed _ bound _).mp member
  obtain ⟨-, -, blockWide, blockSmall⟩ := represents.layout.bounds inBlocks
  obtain ⟨-, blockWhole, word, -⟩ := represents.layout.headed _ inBlocks
  have blockWide' : 16 ≤ size := blockWide
  have blockSmall' : size < 2 ^ 30 := blockSmall
  have nodeSize : heap.sizeAndFlag found.1 = size := word
  have enough : request ≤ size := by
    rcases which with ⟨same, bucket⟩ | ⟨first, head⟩ | ⟨-, compared⟩
    · have narrow := (osMemFreeListIndexGet_lt_bucket_iff wide small).mp bucket
      have sameClass : osMemFreeListIndexGet size = osMemFreeListIndexGet request :=
        class'.trans same
      have blockNarrow : size < 128 := by
        refine (osMemFreeListIndexGet_lt_bucket_iff (by omega) (by omega)).mp ?_
        rw [sameClass]
        exact bucket
      rw [osMemFreeListIndexGet_small (by omega) blockNarrow,
        osMemFreeListIndexGet_small wide narrow] at sameClass
      omega
    · have served := fits _ bound first
      rw [← head] at served
      exact served.trans_eq nodeSize
    · exact compared.trans_eq nodeSize
  obtain ⟨front, back, rfl⟩ := append_of_mem inBlocks
  refine .inr ⟨front, back, found.1, size, rfl, none, enough, ?_⟩
  have deleted : osMemFreeNodeDelete heap found.1 = osMemListDelete heap found.2 found.1 := by
    unfold osMemFreeNodeDelete
    rw [nodeSize, class']
  rw [deleted]
  exact if_neg none

/-- The heap after a node was handed out: it is used, it was not used before, and the other used
nodes are as they were. -/
structure Granted (region : Region) (heap heap' : Heap) (others blocks' : List Block)
    (block : Block) : Prop where
  rest : AtRest region heap' blocks'
  held : block.kind ≠ .free
  members : ∀ other, other.kind ≠ .free → (other ∈ blocks' ↔ other ∈ others ∨ other = block)
  fresh : ∀ other ∈ others, other.kind ≠ .free → other.address ≠ block.address
  kept : ∀ other ∈ others, other.kind ≠ .free → ∀ place, other.address + 8 ≤ place →
    place < other.stop → heap'.memory place = heap.memory place

theorem Granted.member
    (granted : Granted region heap heap' others blocks' block) : block ∈ blocks' :=
  (granted.members block granted.held).mpr (.inr rfl)

theorem Granted.count
    (granted : Granted region heap heap' others blocks' block) (used water : Nat) :
    Granted region heap { heap' with curUsedSize := used, waterLine := water } others blocks' block :=
  ⟨granted.rest.count used water, granted.held, granted.members, granted.fresh, granted.kept⟩

theorem Holding.grant {heap₀ : Heap}
    (holding : Holding region heap front address size back) (settled : Settled (front ++ back))
    (moves : Moves heap₀ heap others (front ++ back)) :
    Granted region heap₀ (setUsedFlag heap address) others
      (front ++ ⟨address, size, .used false⟩ :: back) ⟨address, size, .used false⟩ := by
  obtain ⟨rest, marks, -⟩ := holding.mark settled
  have total := moves.trans marks
  obtain ⟨listed, represents⟩ := rest.represents
  refine ⟨rest, nofun, fun other held => ?_, fun other old held => ?_,
    fun other old held => total.kept other ((moves.held other held).mpr old) held⟩
  · rw [← moves.held other held]
    simp only [mem_append, mem_cons]
    exact ⟨fun member => by
      rcases member with inFront | same | inBack
      · exact .inl (.inl inFront)
      · exact .inr same
      · exact .inl (.inr inBack), fun member => by
      rcases member with (inFront | inBack) | same
      · exact .inl inFront
      · exact .inr (.inr inBack)
      · exact .inr (.inl same)⟩
  · exact represents.layout.address_ne ((moves.held other held).mpr old)

def allocSizeOf (size : Nat) : Nat := osMemAlign (size + osMemNodeHeadSize) osMemAlignSize

theorem allocSizeOf_bounds {size : Nat} (small : size < 2 ^ 31) :
    size + 8 ≤ allocSizeOf size ∧ allocSizeOf size < size + 12 ∧ 4 ∣ allocSizeOf size := by
  obtain ⟨lower, upper, whole⟩ := @osMemAlign_word (size + 8) (by omega)
  exact ⟨lower, by exact upper, whole⟩

theorem AtRest.osMemAlloc (rest : AtRest region heap blocks) {request : Nat}
    (wide : 8 ≤ request) (small : request + 12 < 2 ^ 31)
    (fits : ClassFits heap (allocSizeOf request)) : Memory.osMemAlloc heap request = (heap, 0) ∨
      ∃ blocks' address size, request + 8 ≤ size ∧
        (Memory.osMemAlloc heap request).2 = address + 8 ∧
        Granted region heap (Memory.osMemAlloc heap request).1 blocks blocks'
          ⟨address, size, .used false⟩ := by
  obtain ⟨lower, upper, whole⟩ := @allocSizeOf_bounds request (by omega)
  rcases rest.osMemFreeNodeGet (by omega) whole (by omega) fits with
    none | ⟨front, back, address, size, rfl, real, enough, got⟩
  · have none' : Memory.osMemFreeNodeGet heap (osMemAlign (request + osMemNodeHeadSize)
        osMemAlignSize) = (heap, 0) := none
    refine .inl ?_
    simp only [Memory.osMemAlloc, none', if_true]
  · refine .inr ?_
    obtain ⟨holding, takeMoves⟩ := rest.take
    have settled : Settled (front ++ back) := rest.settled.around
    obtain ⟨left, back', trimmed, trimMoves, -, leftEnough⟩ := holding.trim
      (fun block inBack => settled block (mem_append_right _ inBack)) (by omega) whole enough
    have granted := trimmed.grant (trimMoves.settled settled) (takeMoves.trans trimMoves)
    obtain ⟨listed, represents⟩ := holding.represents
    have word : (osMemFreeNodeDelete heap address).sizeAndFlag address = size :=
      (represents.layout.headed ⟨address, size, .loose⟩ (mem_append_right _ mem_cons_self)).word
    have result : Memory.osMemAlloc heap request =
        (osMemWaterUsedRecord (setUsedFlag (Memory.trim (osMemFreeNodeDelete heap address) address
            (allocSizeOf request) size) address)
          (osMemNodeGetSize ((setUsedFlag (Memory.trim (osMemFreeNodeDelete heap address) address
            (allocSizeOf request) size) address).sizeAndFlag address)), address + 8) := by
      have got' : Memory.osMemFreeNodeGet heap (osMemAlign (request + osMemNodeHeadSize)
          osMemAlignSize) = (osMemFreeNodeDelete heap address, address) := got
      simp only [Memory.osMemAlloc, got', if_neg real, word]
      rfl
    rw [result]
    exact ⟨_, address, left, lower.trans leftEnough, rfl, granted.count _ _⟩

end TowerSafe.Memory
