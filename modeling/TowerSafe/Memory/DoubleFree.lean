/-
This file proves when a pointer is rejected that is freed a second time, after any releases of other
blocks. What the releases leave of its node has no used flag, so a pointer that leads back to its
node is rejected. A pointer behind a gap of one or two words leads back by a word that then holds a
link of the free list, and a link with the bit of the flag in it is taken for another gap.
-/

import TowerSafe.Memory.Client

namespace TowerSafe.Memory

open Library List

/-! ### Rejected nodes -/

variable {heap : Heap} {node : Nat}

theorem osMemFree_rejected_iff :
    osMemFree heap node = (heap, false) ↔ osMemCheckUsedNode heap node = false := by
  unfold osMemFree
  cases osMemCheckUsedNode heap node with
  | true => exact iff_of_false (fun same => nomatch congrArg Prod.snd same) nofun
  | false => exact iff_of_true rfl rfl

theorem checkUsedNode_unused (clear : osMemNodeGetUsedFlag (heap.sizeAndFlag node) = 0) :
    osMemCheckUsedNode heap node = false := by
  unfold osMemCheckUsedNode
  rw [clear, bne_self_eq_false, Bool.and_false, Bool.false_and, Bool.false_and, Bool.false_and]

theorem checkUsedNode_detached (inner : node ≠ heap.firstNode)
    (detached : osMemIsNodeValid heap (heap.ptrPrev node) = false ∨
      heap.nextNode (heap.ptrPrev node) ≠ node) : osMemCheckUsedNode heap node = false := by
  have refused : (!osMemIsNodeValid heap (heap.ptrPrev node) ||
      heap.nextNode (heap.ptrPrev node) != node) = true := by
    rw [Bool.or_eq_true, Bool.not_eq_true', bne_iff_ne]
    exact detached
  unfold osMemCheckUsedNode
  rw [refused, bne_iff_ne.mpr inner, Bool.and_true, Bool.not_true, Bool.and_false]

/-! ### What is left of a node -/

variable {region : Region} {blocks : List Block}

theorem AtRest.exists_trace (rest : AtRest region heap blocks) {block : Block}
    (member : block ∈ blocks) {aligned : Bool} (used : block.kind = .used aligned) :
    ∃ trace : Trace region, trace.node = block.address ∧ trace.memory = heap.memory ∧
      trace.marks = blocks.map Block.address ∧ trace.Holds heap blocks := by
  obtain ⟨listed, represents⟩ := rest.represents
  have layout := represents.layout
  let trace : Trace region :=
    { marks := blocks.map Block.address
      node := block.address
      memory := heap.memory
      member := mem_map_of_mem member
      inside := fun mark inMarks => by
        obtain ⟨other, inBlocks, rfl⟩ := mem_map.mp inMarks
        obtain ⟨lower, upper, wide, -⟩ := layout.bounds inBlocks
        have stopEq : other.stop = other.address + other.size := rfl
        exact ⟨lower, by omega, layout.aligned inBlocks⟩
      apart := fun first firstIn second secondIn => by
        obtain ⟨one, inBlocks, rfl⟩ := mem_map.mp firstIn
        obtain ⟨two, inBlocks', rfl⟩ := mem_map.mp secondIn
        have wide := (layout.bounds inBlocks).2.2.1
        have wide' := (layout.bounds inBlocks').2.2.1
        have stopEq : one.stop = one.address + one.size := rfl
        have stopEq' : two.stop = two.address + two.size := rfl
        rcases layout.apart inBlocks inBlocks' with same | before | after
        · exact .inl (congrArg Block.address same)
        · omega
        · omega }
  refine ⟨trace, rfl, rfl, rfl, fun other inBlocks => mem_map_of_mem inBlocks,
    fun mark inMarks => ?_, .inr ⟨block.size, aligned, ?_⟩, .inl ⟨rfl, rfl⟩, fun _ _ _ => rfl⟩
  · obtain ⟨other, inBlocks, rfl⟩ := mem_map.mp inMarks
    have next : heap.nextNode other.address = other.stop := by
      rw [Heap.nextNode, represents.sizeAndFlag_eq inBlocks, size_word (layout.bounds inBlocks).2.2.2]
      rfl
    rw [next]
    obtain ⟨front, back, rfl⟩ := append_of_mem inBlocks
    rcases layout.after with ⟨-, last⟩ | ⟨following, tail, rfl, same⟩
    · exact .inr last
    · refine .inl (mem_map.mpr ⟨following, ?_, same⟩)
      exact mem_append_right _ (mem_cons_of_mem _ mem_cons_self)
  · rw [← used]
    exact member

theorem Trace.Holds.rejects {trace : Trace region} (holds : trace.Holds heap blocks)
    (layout : Layout region heap blocks) (released : heap.sizeAndFlag trace.node < 2 ^ 30)
    (prev : trace.Link (heap.prev trace.node)) {offset : Nat} (which : offset = 4 ∨ offset = 8) :
    osMemCheckUsedNode heap (trace.node + offset) = false := by
  obtain ⟨lower, upper, -⟩ := trace.inside _ trace.member
  obtain ⟨firstReal, -, -, -, span, -⟩ := region.facts
  have inner : trace.node + offset ≠ heap.firstNode := by
    rw [layout.firstNode_eq]
    omega
  have invalid : ∀ place < region.first, osMemIsNodeValid heap place = false := fun place below => by
    unfold osMemIsNodeValid
    rw [layout.firstNode_eq]
    exact if_pos fun bounds => absurd bounds.1 (Nat.not_le.mpr below)
  rcases which with rfl | rfl
  · by_cases clear : osMemNodeGetUsedFlag (heap.sizeAndFlag (trace.node + 4)) = 0
    · exact checkUsedNode_unused clear
    refine checkUsedNode_detached inner (.inl (invalid _ ?_))
    have same : heap.sizeAndFlag (trace.node + 4) = heap.prev trace.node := rfl
    have back : heap.ptrPrev (trace.node + 4) = heap.sizeAndFlag trace.node := rfl
    rw [osMemNodeGetUsedFlag_eq_zero_iff, same] at clear
    rcases prev with null | mark
    · rw [null] at clear
      exact absurd rfl clear
    · have bounds := trace.inside _ mark
      omega
  · refine checkUsedNode_detached inner ?_
    have back : heap.ptrPrev (trace.node + 8) = heap.prev trace.node := rfl
    rw [back]
    rcases prev with null | mark
    · rw [null]
      exact .inl (invalid 0 firstReal)
    · exact .inr ((holds.steps _ mark).away trace.member (by decide) (by decide)).symm

theorem Trace.Holds.kept_or_link {trace : Trace region} {last : Heap} {blocks' : List Block}
    {block : Block} {pointer gap : Nat} (holds : trace.Holds last blocks')
    (layout : Layout region heap blocks) (member : block ∈ blocks)
    (node : trace.node = block.address) (memory : trace.memory = heap.memory)
    (marks : trace.marks = blocks.map Block.address) (positive : 0 < gap) (whole : 4 ∣ gap)
    (same : pointer = block.address + 8 + gap) (fits : pointer ≤ block.stop) :
    last.memory (pointer - 4) = heap.memory (pointer - 4) ∨
      (gap = 4 ∨ gap = 8) ∧ trace.Link (last.prev trace.node) ∧
        trace.Link (last.memory (pointer - 4)) := by
  have upper := (layout.bounds member).2.1
  by_cases long : 12 ≤ gap
  · refine .inl ((holds.kept _ (by omega) fun mark inMarks => ?_).trans (congrFun memory _))
    rw [marks] at inMarks
    obtain ⟨other, inBlocks, rfl⟩ := mem_map.mp inMarks
    have stopEq : other.stop = other.address + other.size := rfl
    rcases layout.apart member inBlocks with equal | ahead | behind
    · rw [← equal]
      omega
    · omega
    · omega
  · have short : gap = 4 ∨ gap = 8 := by omega
    have place : pointer - 4 = trace.node + 8 ∨ pointer - 4 = trace.node + 12 := by omega
    rw [← memory]
    rcases holds.links with ⟨prev, next⟩ | ⟨prev, next⟩
    · left
      rcases place with equal | equal <;> rw [equal]
      · exact prev
      · exact next
    · refine .inr ⟨short, prev, ?_⟩
      rcases place with equal | equal <;> rw [equal]
      · exact prev
      · exact next

theorem AtRest.losMemFree_flagged {pointer gap : Nat} (rest : AtRest region heap blocks)
    (aligned : 4 ∣ pointer) (small : gap < 2 ^ 30) (whole : 4 ∣ gap)
    (word : heap.memory (pointer - 4) = gap + 2 ^ 30) (behind : heap.pool + 8 < pointer) :
    Memory.losMemFree heap pointer = (heap, false) ↔
      ¬(gap ≤ pointer - osMemNodeHeadSize - heap.pool ∧
        osMemCheckUsedNode heap (pointer - gap - osMemNodeHeadSize) = true) := by
  have headSize : osMemNodeHeadSize = 8 := rfl
  rw [rest.losMemFree_eq aligned (by omega), osGetRealPtr_gap small whole word]
  by_cases outside : gap > pointer - osMemNodeHeadSize - heap.pool
  · rw [if_pos outside]
    exact iff_of_true rfl fun both => absurd both.1 (Nat.not_le.mpr outside)
  · rw [if_neg outside, if_neg (by omega), osMemFree_rejected_iff, ← Bool.not_eq_true]
    exact not_congr (and_iff_right (Nat.le_of_not_lt outside)).symm

/-! ### Releases -/

/-- `LOS_MemFree` of pointers that the client holds, one after the other. -/
def Client.frees (client : Client) : List Nat → Option Client
  | [] => some client
  | pointer :: rest => (client.step (.free pointer)).bind fun next => next.frees rest

theorem Client.Consistent.frees {client last : Client} {pointers : List Nat}
    (consistent : client.Consistent region blocks) (freed : client.frees pointers = some last) :
    ∃ blocks', last.Consistent region blocks' ∧
      Trace.Survives region client.heap last.heap blocks blocks' ∧
      ∀ block ∈ blocks', block.kind ≠ .free → block ∈ blocks := by
  induction pointers generalizing client blocks with
  | nil =>
    obtain rfl := Option.some.inj freed
    exact ⟨blocks, consistent, fun _ holds => holds, fun _ member _ => member⟩
  | cons pointer rest hypothesis =>
    obtain ⟨next, stepped, remaining⟩ := Option.bind_eq_some_iff.mp freed
    obtain ⟨held, same⟩ := Option.ite_none_right_eq_some.mp stepped
    obtain rfl := Option.some.inj same
    obtain ⟨success, blocks', consistent', -, block, -, -, removed⟩ := consistent.free held
    rw [if_pos success] at remaining
    obtain ⟨blocks'', consistent'', survives, still⟩ := hypothesis consistent' remaining
    refine ⟨blocks'', consistent'', fun trace holds => survives trace (removed.survives trace holds),
      fun other member used => ?_⟩
    exact ((removed.members other used).mp (still other member used)).1

/-- The word in front of the pointer was a gap of one or two words, is a link of the free list now,
reads as another gap that ends in the pool, and what this gap leads to passes for a used node. -/
structure Misled (before after : Heap) (pointer : Nat) : Prop where
  gap : before.memory (pointer - 4) = 4 + 2 ^ 30 ∨ before.memory (pointer - 4) = 8 + 2 ^ 30
  overwritten : after.memory (pointer - 4) ≠ before.memory (pointer - 4)
  flagged : 2 ^ 30 ≤ after.memory (pointer - 4) ∧ after.memory (pointer - 4) < 2 ^ 31
  inPool : after.memory (pointer - 4) - 2 ^ 30 ≤ pointer - osMemNodeHeadSize - after.pool
  used : osMemCheckUsedNode after
    (pointer - (after.memory (pointer - 4) - 2 ^ 30) - osMemNodeHeadSize) = true

/-- A second release of a pointer, after the first and releases of other blocks, is rejected
exactly when no link is taken for a gap. -/
theorem doubleFree_rejected_iff {client last : Client} {pointer : Nat} {others : List Nat}
    (reached : Reachable Client.step Client.Fits Client.Established client)
    (freed : client.frees (pointer :: others) = some last) :
    losMemFree last.heap pointer = (last.heap, false) ↔ ¬Misled client.heap last.heap pointer := by
  obtain ⟨region, blocks, consistent⟩ := Client.consistent_of_reachable (fun _ => id) reached
  obtain ⟨next, stepped, remaining⟩ := Option.bind_eq_some_iff.mp freed
  obtain ⟨held, same⟩ := Option.ite_none_right_eq_some.mp stepped
  obtain rfl := Option.some.inj same
  obtain ⟨success, blocks', consistent', size, block, member, owns, removed⟩ := consistent.free held
  rw [if_pos success] at remaining
  obtain ⟨blocks'', consistent'', survives, still⟩ := consistent'.frees remaining
  obtain ⟨aligned, kind⟩ := owns.kind
  obtain ⟨trace, nodeEq, memoryEq, marksEq, started⟩ :=
    consistent.rest.exists_trace member (congrArg Block.kind kind)
  have holds := survives trace (removed.survives trace started)
  obtain ⟨listed, represents⟩ := consistent.rest.represents
  obtain ⟨listed', represents'⟩ := consistent''.rest.represents
  have layout := represents.layout
  have pointerAligned := consistent.rest.pointer_aligned member owns
  have pointerLower := owns.lower
  have pointerFits := owns.fits
  have poolEq : last.heap.pool = region.pool := represents'.layout.pool
  have firstEq : region.first = region.pool + 944 := rfl
  obtain ⟨lower, upper, -, small⟩ := layout.bounds member
  obtain ⟨firstReal, -, -, -, span, top⟩ := region.facts
  have headSize : osMemNodeHeadSize = 8 := rfl
  have released : last.heap.sizeAndFlag block.address < 2 ^ 30 := by
    rw [← nodeEq]
    refine holds.released.resolve_right ?_
    rintro ⟨size', aligned', inLast⟩
    obtain ⟨old, differ⟩ := (removed.members ⟨_, _, .used aligned'⟩ nofun).mp (still _ inLast nofun)
    exact differ (layout.eq_of_address_eq old member nodeEq)
  have unused : osMemCheckUsedNode last.heap block.address = false :=
    checkUsedNode_unused ((osMemNodeGetUsedFlag_eq_zero_iff _).mpr (by omega))
  have result := consistent''.rest.losMemFree_eq pointerAligned (by omega)
  rcases owns.place with ⟨unaligned, same⟩ | ⟨-, gap, positive, whole, same, word⟩
  · have place : pointer - 4 = block.address + 4 := by omega
    have before : client.heap.memory (pointer - 4) = block.size + 2 ^ 31 := by
      rw [place, (layout.headed block member).word, Block.word, unaligned]
      rfl
    have after : last.heap.memory (pointer - 4) = last.heap.sizeAndFlag block.address := by
      rw [place]
      rfl
    rw [result, osGetRealPtr_plain (by omega), if_neg (by omega), osMemFree_rejected_iff,
      show pointer - osMemNodeHeadSize = block.address by omega]
    refine iff_of_true unused fun misled => ?_
    have gap := misled.gap
    omega
  · by_cases kept : last.heap.memory (pointer - 4) = client.heap.memory (pointer - 4)
    · rw [consistent''.rest.losMemFree_flagged pointerAligned (by omega) whole (kept.trans word)
        (by omega), show pointer - gap - osMemNodeHeadSize = block.address by omega, unused]
      exact iff_of_true (fun both => Bool.false_ne_true both.2) fun misled => misled.overwritten kept
    obtain ⟨short, prev, link⟩ := (holds.kept_or_link layout member nodeEq memoryEq marksEq
      positive whole same (by omega)).resolve_left kept
    have linkBounds : 4 ∣ last.heap.memory (pointer - 4) ∧
        last.heap.memory (pointer - 4) < 2 ^ 32 := by
      rcases link with null | mark
      · rw [null]
        decide
      · have bounds := trace.inside _ mark
        omega
    by_cases flagged : 2 ^ 30 ≤ last.heap.memory (pointer - 4) ∧
        last.heap.memory (pointer - 4) < 2 ^ 31
    · rw [consistent''.rest.losMemFree_flagged pointerAligned (by omega) (by omega)
        (Nat.sub_add_cancel flagged.1).symm (by omega)]
      refine not_congr ⟨fun both => ⟨?_, kept, flagged, both.1, both.2⟩,
        fun misled => ⟨misled.inPool, misled.used⟩⟩
      omega
    · refine iff_of_true ?_ fun misled => flagged misled.flagged
      rw [result]
      by_cases clear : last.heap.memory (pointer - 4) / 2 ^ 30 % 2 = 0
      · rw [osGetRealPtr_plain clear, if_neg (by omega), osMemFree_rejected_iff,
          show pointer - osMemNodeHeadSize = trace.node + gap by omega]
        exact holds.rejects represents'.layout (nodeEq ▸ released) prev short
      · rw [osGetRealPtr_error clear (by omega), if_pos rfl]

/-- A client of a pool at 2^30, whose addresses have the bit of the flag. -/
def flaggedAddresses : Client := ⟨osMemPoolInit (fun _ => 0) (2 ^ 30) 4096, []⟩

theorem flaggedAddresses_established : flaggedAddresses.Established :=
  ⟨rfl, [], fun _ => 0, 2 ^ 30, 4096, rfl, by decide, by decide, by decide⟩

theorem doubleFree_rejected_iff_sample :
    ∃ client last, execute Client.step Client.small flaggedAddresses [.alloc 16, .alloc 16] =
        some client ∧
      client.frees [2 ^ 30 + 952, 2 ^ 30 + 976] = some last ∧
      losMemFree last.heap (2 ^ 30 + 952) = (last.heap, false) := by
  have ran : ((execute Client.step Client.small flaggedAddresses [.alloc 16, .alloc 16]).bind
      fun client => (client.frees [2 ^ 30 + 952, 2 ^ 30 + 976]).map fun _ =>
        client.heap.memory (2 ^ 30 + 948)) = some (24 + 2 ^ 31) := by decide +kernel
  obtain ⟨client, reached, rest⟩ := Option.bind_eq_some_iff.mp ran
  obtain ⟨last, freed, word⟩ := Option.map_eq_some_iff.mp rest
  refine ⟨client, last, reached, freed, (doubleFree_rejected_iff (Reachable.of_execute
    Client.fits_of_small _ (.start flaggedAddresses_established) reached) freed).mpr
      fun misled => ?_⟩
  have gap := misled.gap
  rw [show 2 ^ 30 + 952 - 4 = 2 ^ 30 + 948 by decide, word] at gap
  exact absurd gap (by decide)

/-- Five blocks, the fourth behind a gap of two words, and the release of the second. -/
def misledCalls : List Call :=
  [.alloc 16, .alloc 28, .alloc 892, .allocAlign 16 16, .alloc 16, .free (2 ^ 30 + 976)]

/-- The second release of the fourth block succeeds: it takes the first block from the client. -/
theorem doubleFree_accepted :
    ¬∀ client last pointer others, Reachable Client.step Client.Fits Client.Established client →
      client.frees (pointer :: others) = some last →
      losMemFree last.heap pointer = (last.heap, false) := by
  intro claim
  have ran : ((execute Client.step Client.small flaggedAddresses misledCalls).bind fun client =>
      (client.frees [2 ^ 30 + 1920]).map fun last =>
        (losMemFree last.heap (2 ^ 30 + 1920)).2) = some true := by decide +kernel
  obtain ⟨client, reached, rest⟩ := Option.bind_eq_some_iff.mp ran
  obtain ⟨last, freed, accepted⟩ := Option.map_eq_some_iff.mp rest
  have rejected := claim client last _ _ (Reachable.of_execute Client.fits_of_small _
    (.start flaggedAddresses_established) reached) freed
  rw [rejected] at accepted
  exact nomatch accepted

end TowerSafe.Memory
