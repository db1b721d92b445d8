/-
This file says what releases leave behind. A release joins nodes and never makes one, so the heads
of the nodes that there were stay where they are, as heads or inside of a larger free node. A trace
fixes these places and one node that is watched: the size word at each place leads to another one,
the watched node has no used flag once it is not used, its words that serve as links hold links or
what they held, and the words that are in no head are kept.
-/

import TowerSafe.Memory.Nodes

namespace TowerSafe.Memory

open Library
open Function (update_of_ne update_self)
open List

/-! ### Traces -/

/-- The heads of the nodes of a pool, one that is watched, and what the memory held. -/
structure Trace (region : Region) where
  marks : List Nat
  node : Nat
  memory : Nat → Nat
  member : node ∈ marks
  inside : ∀ mark ∈ marks, region.first ≤ mark ∧ mark + 16 ≤ region.last ∧ 4 ∣ mark
  apart : ∀ first ∈ marks, ∀ second ∈ marks,
    first = second ∨ first + 16 ≤ second ∨ second + 16 ≤ first

namespace Trace

variable {region : Region}

/-- The address is that of a node that there was, or of the end node. -/
def Stop (trace : Trace region) (address : Nat) : Prop :=
  address ∈ trace.marks ∨ address = region.last

def Link (trace : Trace region) (value : Nat) : Prop := value = 0 ∨ value ∈ trace.marks

/-- What releases leave of the nodes. -/
structure Holds (trace : Trace region) (heap : Heap) (blocks : List Block) : Prop where
  marked : ∀ block ∈ blocks, block.address ∈ trace.marks
  steps : ∀ mark ∈ trace.marks, trace.Stop (heap.nextNode mark)
  released : heap.sizeAndFlag trace.node < 2 ^ 30 ∨
    ∃ size aligned, ⟨trace.node, size, .used aligned⟩ ∈ blocks
  links : heap.prev trace.node = trace.memory (trace.node + 8) ∧
      heap.next trace.node = trace.memory (trace.node + 12) ∨
    trace.Link (heap.prev trace.node) ∧ trace.Link (heap.next trace.node)
  kept : ∀ place < region.last, (∀ mark ∈ trace.marks, place < mark ∨ mark + 16 ≤ place) →
    heap.memory place = trace.memory place

/-- A change of the heap that every trace survives. -/
def Survives (region : Region) (heap heap' : Heap) (blocks blocks' : List Block) : Prop :=
  ∀ trace : Trace region, trace.Holds heap blocks → trace.Holds heap' blocks'

variable {trace : Trace region} {heap heap' : Heap} {blocks blocks' : List Block}

theorem Holds.congr (holds : trace.Holds heap blocks) (same : heap'.memory = heap.memory) :
    trace.Holds heap' blocks := by
  obtain ⟨marked, steps, released, links, kept⟩ := holds
  unfold Heap.nextNode Heap.sizeAndFlag at steps
  unfold Heap.sizeAndFlag at released
  unfold Heap.prev Heap.next at links
  rw [← same] at steps released links kept
  exact ⟨marked, steps, released, links, kept⟩

theorem Stop.away {address mark offset : Nat} (stop : trace.Stop address)
    (member : mark ∈ trace.marks) (positive : 0 < offset) (small : offset < 16) :
    mark + offset ≠ address := by
  obtain ⟨-, below, -⟩ := trace.inside mark member
  rcases stop with other | rfl
  · have apart := trace.apart mark member address other
    omega
  · omega

theorem Holds.setPtrPrev (holds : trace.Holds heap blocks) {address value : Nat}
    (stop : trace.Stop address) : trace.Holds (heap.setPtrPrev address value) blocks := by
  have same : ∀ place, place ≠ address →
      (heap.setPtrPrev address value).memory place = heap.memory place :=
    fun place differ => update_of_ne differ _ _
  have word : ∀ mark ∈ trace.marks,
      (heap.setPtrPrev address value).sizeAndFlag mark = heap.sizeAndFlag mark :=
    fun mark member => same _ (stop.away member (by decide) (by decide))
  refine ⟨holds.marked, fun mark member => ?_, ?_, ?_, fun place below away => ?_⟩
  · rw [Heap.nextNode, word mark member]
    exact holds.steps mark member
  · rw [word _ trace.member]
    exact holds.released
  · rw [Heap.prev, Heap.next, same _ (stop.away trace.member (by decide) (by decide)),
      same _ (stop.away trace.member (by decide) (by decide))]
    exact holds.links
  · refine (same place ?_).trans (holds.kept place below away)
    rcases stop with mark | last
    · have outside := away address mark
      omega
    · omega

theorem Holds.setSize (holds : trace.Holds heap blocks) {address size : Nat}
    (member : address ∈ trace.marks) (small : size < 2 ^ 30) (stop : trace.Stop (address + size))
    (marked : ∀ block ∈ blocks', block.address ∈ trace.marks)
    (used : ∀ block ∈ blocks, block.address ≠ address → block.kind ≠ .free →
      block.kind ≠ .loose → block ∈ blocks') :
    trace.Holds (heap.setSizeAndFlag address size) blocks' := by
  have same : ∀ place, place ≠ address + 4 →
      (heap.setSizeAndFlag address size).memory place = heap.memory place :=
    fun place differ => update_of_ne differ _ _
  have here : (heap.setSizeAndFlag address size).sizeAndFlag address = size := update_self _ _ _
  have word : ∀ mark, mark ≠ address →
      (heap.setSizeAndFlag address size).sizeAndFlag mark = heap.sizeAndFlag mark :=
    fun mark differ => same _ fun equal => differ (Nat.add_right_cancel equal)
  have apart := trace.apart _ trace.member _ member
  refine ⟨marked, fun mark inMarks => ?_, ?_, ?_, fun place below away => ?_⟩
  · rw [Heap.nextNode]
    by_cases equal : mark = address
    · rw [equal, here, osMemNodeGetSize_eq, Nat.mod_eq_of_lt small]
      exact stop
    · rw [word mark equal]
      exact holds.steps mark inMarks
  · by_cases equal : trace.node = address
    · rw [equal, here]
      exact .inl small
    · rw [word _ equal]
      refine holds.released.imp id fun ⟨length, aligned, old⟩ => ?_
      exact ⟨length, aligned, used _ old equal nofun nofun⟩
  · rw [Heap.prev, Heap.next, same _ (by omega), same _ (by omega)]
    exact holds.links
  · have outside := away address member
    exact (same place (by omega)).trans (holds.kept place below away)

theorem Holds.relink {listed : Nat → List Nat} (holds : trace.Holds heap blocks)
    (represents : Represents region heap' blocks' listed)
    (marked : ∀ block ∈ blocks', block.address ∈ trace.marks)
    (used : ∀ block ∈ blocks, block.kind ≠ .free → block.kind ≠ .loose → block ∈ blocks')
    (frame : ∀ place, (∀ block ∈ blocks', block.kind = .free → place ≠ block.address + 8 ∧
      place ≠ block.address + 12) → heap'.memory place = heap.memory place) :
    trace.Holds heap' blocks' := by
  have word : ∀ mark ∈ trace.marks, heap'.sizeAndFlag mark = heap.sizeAndFlag mark :=
    fun mark member => frame _ fun block inBlocks _ => by
      have apart := trace.apart mark member _ (marked block inBlocks)
      omega
  refine ⟨marked, fun mark member => ?_, ?_, ?_, fun place below away => ?_⟩
  · rw [Heap.nextNode, word mark member]
    exact holds.steps mark member
  · rw [word _ trace.member]
    exact holds.released.imp id fun ⟨length, aligned, old⟩ => ⟨length, aligned, used _ old nofun nofun⟩
  · by_cases free : ∃ size, ⟨trace.node, size, .free⟩ ∈ blocks'
    · obtain ⟨size, inBlocks⟩ := free
      obtain ⟨bound, inList⟩ := represents.mem_listed inBlocks
      have linked := represents.lists.linked _ bound
      have link : ∀ other ∈ listed (osMemFreeListIndexGet size), trace.Link other :=
        fun other member => by
          obtain ⟨length, old, -⟩ := (represents.classed _ bound other).mp member
          exact .inr (marked _ old)
      refine .inr ⟨?_, ?_⟩
      · by_cases null : heap'.prev trace.node = 0
        · exact .inl null
        · exact link _ (linked.prev_mem inList null).1
      · by_cases null : heap'.next trace.node = 0
        · exact .inl null
        · exact link _ (linked.next_mem inList null).1
    · have away : ∀ block ∈ blocks', block.kind = .free → block.address + 16 ≤ trace.node ∨
          trace.node + 16 ≤ block.address := fun block inBlocks isFree => by
        refine (trace.apart _ (marked block inBlocks) _ trace.member).resolve_left fun same => free ?_
        exact ⟨block.size, by rw [← same, ← isFree]; exact inBlocks⟩
      have prev : heap'.prev trace.node = heap.prev trace.node :=
        frame _ fun block inBlocks isFree => by
          have apart := away block inBlocks isFree
          omega
      have next : heap'.next trace.node = heap.next trace.node :=
        frame _ fun block inBlocks isFree => by
          have apart := away block inBlocks isFree
          omega
      rw [prev, next]
      exact holds.links
  · refine (frame place fun block inBlocks _ => ?_).trans (holds.kept place below away)
    have outside := away _ (marked block inBlocks)
    omega

variable {front back : List Block} {address size : Nat} {listed : Nat → List Nat}

theorem mem_rekind {kind kind' : NodeKind} {block : Block}
    (member : block ∈ front ++ ⟨address, size, kind⟩ :: back)
    (differ : block ≠ ⟨address, size, kind⟩) : block ∈ front ++ ⟨address, size, kind'⟩ :: back := by
  rcases mem_append.mp member with inFront | inRest
  · exact mem_append_left _ inFront
  · exact mem_append_right _ (mem_cons_of_mem _ ((mem_cons.mp inRest).resolve_left differ))

theorem Holds.marked_rekind {kind kind' : NodeKind}
    (holds : trace.Holds heap (front ++ ⟨address, size, kind⟩ :: back)) :
    ∀ block ∈ front ++ ⟨address, size, kind'⟩ :: back, block.address ∈ trace.marks := by
  intro block member
  by_cases same : block = ⟨address, size, kind'⟩
  · rw [same]
    exact holds.marked ⟨address, size, kind⟩ (mem_append_right _ mem_cons_self)
  · exact holds.marked _ (mem_rekind member same)

theorem survives_unmark {aligned : Bool}
    (represents : Represents region heap (front ++ ⟨address, size, .used aligned⟩ :: back) listed) :
    Survives region heap (heap.setSizeAndFlag address size)
      (front ++ ⟨address, size, .used aligned⟩ :: back)
      (front ++ ⟨address, size, .loose⟩ :: back) := by
  intro trace holds
  have member : ⟨address, size, .used aligned⟩ ∈
      front ++ (⟨address, size, .used aligned⟩ : Block) :: back :=
    mem_append_right _ mem_cons_self
  have small : size < 2 ^ 30 := (represents.layout.bounds member).2.2.2
  have mark : address ∈ trace.marks := holds.marked _ member
  have next : heap.nextNode address = address + size := by
    rw [Heap.nextNode, represents.sizeAndFlag_eq member, osMemNodeGetSize_eq]
    cases aligned <;> simp only [Block.word, NodeKind.flags] <;> omega
  refine holds.setSize mark small (next ▸ holds.steps _ mark) holds.marked_rekind
    fun block inBlocks differ _ _ => mem_rekind inBlocks fun same => differ ?_
  rw [same]

theorem survives_freeNodeDelete
    (represents : Represents region heap (front ++ ⟨address, size, .free⟩ :: back) listed) :
    Survives region heap (osMemFreeNodeDelete heap address)
      (front ++ ⟨address, size, .free⟩ :: back) (front ++ ⟨address, size, .loose⟩ :: back) := by
  intro trace holds
  obtain ⟨⟨listed', taken⟩, -⟩ := represents.freeNodeDelete
  refine holds.relink taken holds.marked_rekind (fun block member held _ => mem_rekind member ?_)
    fun place away => represents.freeNodeDelete_frame (mem_append_right _ mem_cons_self) ?_
  · rintro rfl
    exact held rfl
  · rintro block member ⟨free, differ⟩ which
    have still : block ∈ front ++ ⟨address, size, .loose⟩ :: back :=
      mem_rekind member fun same => differ (congrArg Block.address same)
    exact which.elim (away _ still free).1 (away _ still free).2

theorem survives_freeNodeAdd
    (represents : Represents region heap (front ++ ⟨address, size, .loose⟩ :: back) listed) :
    Survives region heap (osMemFreeNodeAdd heap address)
      (front ++ ⟨address, size, .loose⟩ :: back) (front ++ ⟨address, size, .free⟩ :: back) := by
  intro trace holds
  obtain ⟨⟨listed', added⟩, -⟩ := represents.freeNodeAdd
  have here : ⟨address, size, .loose⟩ ∈ front ++ (⟨address, size, .loose⟩ : Block) :: back :=
    mem_append_right _ mem_cons_self
  refine holds.relink added holds.marked_rekind (fun block member _ loose => mem_rekind member ?_)
    fun place away => represents.freeNodeAdd_frame here fun block member which => ?_
  · rintro rfl
    exact loose rfl
  · by_cases same : block = ⟨address, size, .loose⟩
    · rw [same]
      have away := away ⟨address, size, .free⟩ (mem_append_right _ mem_cons_self) rfl
      exact not_or.mpr away
    · refine not_or.mpr (away block (mem_rekind member same)
        (which.resolve_right fun equal => same ?_))
      exact represents.layout.eq_of_address_eq member here equal

theorem survives_mergeNode {following : Nat} (represents : Represents region heap
      (front ++ ⟨address, size, .loose⟩ :: ⟨address + size, following, .loose⟩ :: back) listed) :
    Survives region heap (osMemMergeNode heap (address + size))
      (front ++ ⟨address, size, .loose⟩ :: ⟨address + size, following, .loose⟩ :: back)
      (front ++ ⟨address, size + following, .loose⟩ :: back) := by
  intro trace holds
  obtain ⟨merged, -⟩ := represents.mergeNode
  have small : size + following < 2 ^ 30 :=
    (merged.layout.bounds (mem_append_right _ mem_cons_self)).2.2.2
  have second : ⟨address + size, following, .loose⟩ ∈ front ++ (⟨address, size, .loose⟩ : Block) ::
      ⟨address + size, following, .loose⟩ :: back :=
    mem_append_right _ (mem_cons_of_mem _ mem_cons_self)
  have mark : address ∈ trace.marks :=
    holds.marked ⟨address, size, .loose⟩ (mem_append_right _ mem_cons_self)
  have stop : trace.Stop (address + size + following) := by
    have next := holds.steps _ (holds.marked _ second)
    have word : heap.sizeAndFlag (address + size) = following := represents.sizeAndFlag_eq second
    rwa [Heap.nextNode, word, osMemNodeGetSize_eq, Nat.mod_eq_of_lt (by omega)] at next
  rw [represents.mergeNode_eq]
  refine (holds.setSize mark small (Nat.add_assoc _ _ _ ▸ stop) (fun block member => ?_)
    fun block member _ _ loose => ?_).setPtrPrev stop
  · rcases mem_append.mp member with inFront | inRest
    · exact holds.marked _ (mem_append_left _ inFront)
    · rcases mem_cons.mp inRest with rfl | inBack
      · exact mark
      · exact holds.marked _ (mem_append_right _ (mem_cons_of_mem _ (mem_cons_of_mem _ inBack)))
  · rcases mem_append.mp member with inFront | inRest
    · exact mem_append_left _ inFront
    rcases mem_cons.mp inRest with rfl | inRest
    · exact absurd rfl loose
    · rcases mem_cons.mp inRest with rfl | inBack
      · exact absurd rfl loose
      · exact mem_append_right _ (mem_cons_of_mem _ inBack)

end Trace

end TowerSafe.Memory
