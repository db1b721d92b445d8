/-
This file proves what the calls of the memory interface give a client. A pointer a client holds
is owned by a used node: it points behind the node's head, or, when the node was cut to an
alignment, behind a gap word that leads back to the head. An allocation serves a pointer of a
fresh node with room for the request; a release takes the owning node away.
-/

import TowerSafe.Memory.Operations

namespace TowerSafe.Memory

open Library List

/-! ### Ownership -/

/-- The pointer and size a client holds lie in a used node, and the words in front of the pointer
lead back to the node. -/
structure Owns (heap : Heap) (block : Block) (pointer size : Nat) : Prop where
  fits : pointer + size ≤ block.stop
  place : block.kind = .used false ∧ pointer = block.address + 8 ∨
    block.kind = .used true ∧ ∃ gap, 0 < gap ∧ 4 ∣ gap ∧ pointer = block.address + 8 + gap ∧
      heap.memory (pointer - 4) = gap + 2 ^ 30

variable {region : Region} {heap heap' : Heap} {blocks front back : List Block} {block : Block}
  {pointer size : Nat}

theorem Owns.held (owns : Owns heap block pointer size) : block.kind ≠ .free := by
  rcases owns.place with ⟨kind, -⟩ | ⟨kind, -⟩
  · rw [kind]
    exact nofun
  · rw [kind]
    exact nofun

theorem Owns.lower (owns : Owns heap block pointer size) : block.address + 8 ≤ pointer := by
  rcases owns.place with ⟨-, same⟩ | ⟨-, gap, -, -, same, -⟩
  · exact same.ge
  · rw [same]
    exact Nat.le_add_right _ _

theorem Owns.congr (owns : Owns heap block pointer size)
    (same : ∀ place, block.address + 8 ≤ place → place < pointer →
      heap'.memory place = heap.memory place) : Owns heap' block pointer size := by
  refine ⟨owns.fits, owns.place.imp id fun ⟨kind, gap, gapPositive, whole, at', word⟩ => ?_⟩
  exact ⟨kind, gap, gapPositive, whole, at', (same _ (by omega) (by omega)).trans word⟩

theorem gapSize_flags {gap : Nat} (small : gap < 2 ^ 30) :
    (gap + 2 ^ 30) &&& osMemGapsizeAlignedFlag ≠ 0 ∧ (gap + 2 ^ 30) &&& osMemGapsizeUsedFlag = 0 ∧
      (gap + 2 ^ 30) &&& (2 ^ 32 - 1 - osMemGapsizeAlignedFlag) = gap := by
  have used : (gap + 2 ^ 30) &&& 2 ^ 31 = 0 :=
    (osMemNodeGetUsedFlag_eq_zero_iff (gap + 2 ^ 30)).mpr (by omega)
  refine ⟨fun zero => ?_, used, ?_⟩
  · have clear := (osMemNodeGetAlignedFlag_eq_zero_iff (gap + 2 ^ 30)).mp zero
    omega
  · rw [show 2 ^ 32 - 1 - osMemGapsizeAlignedFlag = (2 ^ 30 - 1) ||| 2 ^ 31 by decide,
      Nat.and_or_distrib_left, used, Nat.and_two_pow_sub_one_eq_mod, Nat.or_zero]
    omega

theorem osGetRealPtr_plain (clear : heap.memory (pointer - 4) / 2 ^ 30 % 2 = 0) :
    osGetRealPtr heap pointer = pointer := by
  have notAligned : heap.memory (pointer - 4) &&& osMemGapsizeAlignedFlag = 0 :=
    (osMemNodeGetAlignedFlag_eq_zero_iff _).mpr clear
  unfold osGetRealPtr
  simp only [notAligned, ne_eq, not_true, false_and, if_false]

theorem osGetRealPtr_error (aligned : heap.memory (pointer - 4) / 2 ^ 30 % 2 ≠ 0)
    (used : heap.memory (pointer - 4) / 2 ^ 31 % 2 ≠ 0) : osGetRealPtr heap pointer = 0 := by
  have isAligned := (osMemNodeGetAlignedFlag_eq_zero_iff (heap.memory (pointer - 4))).not.mpr aligned
  have isUsed := (osMemNodeGetUsedFlag_eq_zero_iff (heap.memory (pointer - 4))).not.mpr used
  exact if_pos ⟨isAligned, isUsed⟩

theorem osGetRealPtr_gap {gap : Nat} (small : gap < 2 ^ 30) (whole : 4 ∣ gap)
    (word : heap.memory (pointer - 4) = gap + 2 ^ 30) : osGetRealPtr heap pointer =
      if gap > pointer - osMemNodeHeadSize - heap.pool then 0 else pointer - gap := by
  obtain ⟨aligned, notUsed, value⟩ := gapSize_flags small
  have noRemainder : gap &&& (osMemAlignSize - 1) = 0 := by
    show gap &&& 2 ^ 2 - 1 = 0
    rw [Nat.and_two_pow_sub_one_eq_mod]
    omega
  unfold osGetRealPtr
  simp only [word, aligned, notUsed, value, noRemainder, ne_eq, not_true, not_false_eq_true,
    and_false, false_or, if_false, if_true]

theorem AtRest.osGetRealPtr (rest : AtRest region heap blocks) (member : block ∈ blocks)
    (owns : Owns heap block pointer size) :
    Memory.osGetRealPtr heap pointer = block.address + 8 := by
  obtain ⟨listed, represents⟩ := rest.represents
  obtain ⟨lower, upper, -, small⟩ := represents.layout.bounds member
  have firstEq : region.first = heap.pool + 944 := by
    rw [represents.layout.pool]
    rfl
  have stopEq : block.stop = block.address + block.size := rfl
  have fits := owns.fits
  rcases owns.place with ⟨kind, same⟩ | ⟨kind, gap, positive, whole, same, word⟩
  · have word : heap.memory (pointer - 4) = block.size + 2 ^ 31 := by
      rw [show pointer - 4 = block.address + 4 by omega,
        (represents.layout.headed block member).word, Block.word, kind]
      rfl
    exact (osGetRealPtr_plain (by omega)).trans same
  · have inside : ¬gap > pointer - osMemNodeHeadSize - heap.pool := by
      unfold osMemNodeHeadSize
      omega
    rw [osGetRealPtr_gap (by omega) whole word, if_neg inside]
    omega

/-! ### Allocation -/

/-- What an allocating call gives: nothing, and the heap is as before, or a pointer owned by a
freshly granted node. -/
def Serves (region : Region) (heap : Heap) (others : List Block) (result : Heap × Nat)
    (size boundary : Nat) : Prop :=
  result = (heap, 0) ∨
    ∃ blocks' block, Granted region heap result.1 others blocks' block ∧
      Owns result.1 block result.2 size ∧ boundary ∣ result.2

/-- The size an allocating call looks for, before the node head is added. -/
def atLeastMinimum (size : Nat) : Nat := if size < osMemMinAllocSize then osMemMinAllocSize else size

theorem atLeastMinimum_bounds (size : Nat) : size ≤ atLeastMinimum size ∧ 8 ≤ atLeastMinimum size := by
  unfold atLeastMinimum osMemMinAllocSize
  split
  · omega
  · omega

theorem flags_zero_lt {value : Nat} (word : value < 2 ^ 32)
    (clear : ¬(osMemNodeGetUsedFlag value ≠ 0 ∨ osMemNodeGetAlignedFlag value ≠ 0)) :
    value < 2 ^ 30 := by
  rw [not_or, not_not, not_not, osMemNodeGetUsedFlag_eq_zero_iff,
    osMemNodeGetAlignedFlag_eq_zero_iff] at clear
  omega

theorem AtRest.losMemAlloc (rest : AtRest region heap blocks) (word : size < 2 ^ 32)
    (fits : ClassFits heap (allocSizeOf (atLeastMinimum size))) :
    Serves region heap blocks (Memory.losMemAlloc heap size) size 4 := by
  obtain ⟨le, wide⟩ := atLeastMinimum_bounds size
  by_cases zero : size = 0
  · exact .inl (if_pos zero)
  by_cases flagged : osMemNodeGetUsedFlag (atLeastMinimum size) ≠ 0 ∨
      osMemNodeGetAlignedFlag (atLeastMinimum size) ≠ 0
  · refine .inl ?_
    unfold Memory.losMemAlloc
    rw [if_neg zero]
    exact if_pos flagged
  · have wordMin : atLeastMinimum size < 2 ^ 32 := by
      unfold atLeastMinimum osMemMinAllocSize
      split
      · decide
      · exact word
    have small := flags_zero_lt wordMin flagged
    have result : Memory.losMemAlloc heap size = Memory.osMemAlloc heap (atLeastMinimum size) := by
      unfold Memory.losMemAlloc
      rw [if_neg zero]
      exact if_neg flagged
    rw [result]
    rcases rest.osMemAlloc wide (by omega) fits with none | ⟨blocks', address, total, enough, at',
      granted⟩
    · exact .inl none
    obtain ⟨listed, represents⟩ := granted.rest.represents
    have aligned : 4 ∣ address := represents.layout.aligned granted.member
    refine .inr ⟨blocks', _, granted, ⟨?_, .inl ⟨rfl, at'⟩⟩, ?_⟩
    · rw [at']
      show address + 8 + size ≤ address + total
      omega
    · omega

theorem Granted.align {others blocks' : List Block} {address total place value : Nat}
    (granted : Granted region heap heap' others blocks' ⟨address, total, .used false⟩)
    (lower : address + 8 ≤ place) (upper : place < address + total) :
    ∃ blocks'', Granted region heap ((setAlignedFlag heap' address).store place value) others
      blocks'' ⟨address, total, .used true⟩ := by
  obtain ⟨front, back, rfl⟩ := append_of_mem granted.member
  obtain ⟨listed, represents⟩ := granted.rest.represents
  obtain ⟨marked, markKept⟩ := represents.setAlignedFlag
  have around : ∀ other ∈ front ++ back, other ≠ ⟨address, total, .used false⟩ ∧
      other ≠ ⟨address, total, .used true⟩ := fun other old => by
    have differ := represents.layout.address_ne old
    refine ⟨fun same => differ ?_, fun same => differ ?_⟩
    · rw [same]
    · rw [same]
  have within : ∀ other ∈ front ++ back,
      other ∈ front ++ (⟨address, total, .used true⟩ : Block) :: back := fun other old => by
    rcases mem_append.mp old with inFront | inBack
    · exact mem_append_left _ inFront
    · exact mem_append_right _ (mem_cons_of_mem _ inBack)
  have old : ∀ other, other.kind ≠ .free → (other ∈ front ++ back ↔ other ∈ others) := by
    intro other held
    have members := granted.members other held
    simp only [mem_append, mem_cons] at members ⊢
    constructor
    · intro member
      rcases members.mp (member.imp id .inr) with inOthers | same
      · exact inOthers
      · exact absurd same (around other (mem_append.mpr member)).1
    · intro inOthers
      rcases members.mpr (.inl inOthers) with inFront | same | inBack
      · exact .inl inFront
      · exact absurd (congrArg Block.address same) (granted.fresh other inOthers held)
      · exact .inr inBack
  have rest : AtRest region (setAlignedFlag heap' address)
      (front ++ ⟨address, total, .used true⟩ :: back) := by
    refine ⟨⟨listed, marked⟩, granted.rest.settled.around.insert nofun,
      granted.rest.separate.subset fun other member isFree => ?_⟩
    rcases mem_append.mp member with inFront | inRest
    · exact mem_append_left _ inFront
    · rcases mem_cons.mp inRest with rfl | inBack
      · exact nomatch isFree
      · exact mem_append_right _ (mem_cons_of_mem _ inBack)
  obtain ⟨scribbled, kept⟩ := @AtRest.scribble region (setAlignedFlag heap' address) _
    (Function.update (setAlignedFlag heap' address).memory place value) rest
    ⟨address, total, .used true⟩ (mem_append_right _ mem_cons_self) nofun
    fun other away => Function.update_of_ne (fun same => by
      have low : address + 8 ≤ other := same ▸ lower
      have high : other < address + total := same ▸ upper
      rcases away with before | after
      · exact absurd low (Nat.not_le.mpr before)
      · exact absurd high (Nat.not_lt.mpr after)) _ _
  refine ⟨_, scribbled, nofun, fun other held => ?_, granted.fresh, fun other inOthers held x low
    high => ?_⟩
  · rw [← old other held]
    simp only [mem_append, mem_cons]
    exact ⟨fun member => by
      rcases member with inFront | same | inBack
      · exact .inl (.inl inFront)
      · exact .inr same
      · exact .inl (.inr inBack), fun member => by
      rcases member with (inFront | inBack) | same
      · exact .inl inFront
      · exact .inr (.inr inBack)
      · exact .inr (.inl same)⟩
  · have member := (old other held).mpr inOthers
    exact ((kept other (within other member) (around other member).2 x (by omega) high).trans
      (markKept other (within other member) held x low high)).trans
      (granted.kept other inOthers held x low high)

theorem AtRest.losMemAllocAlign {boundary : Nat} (rest : AtRest region heap blocks)
    (word : size < 2 ^ 32)
    (fits : ClassFits heap (allocSizeOf (atLeastMinimum size + boundary - 4))) :
    Serves region heap blocks (Memory.losMemAllocAlign heap size boundary) size boundary := by
  obtain ⟨le, wide⟩ := atLeastMinimum_bounds size
  have wordMin : atLeastMinimum size < 2 ^ 32 := by
    unfold atLeastMinimum osMemMinAllocSize
    split
    · decide
    · exact word
  by_cases bad : size = 0 ∨ boundary = 0 ∨ (!osMemIsPowTwo boundary) = true ∨
      (!osMemIsAligned boundary 4) = true
  · exact .inl (if_pos bad)
  have result : Memory.losMemAllocAlign heap size boundary =
      if boundary - 4 > 2 ^ 32 - 1 - atLeastMinimum size then (heap, 0)
      else if osMemNodeGetUsedFlag (atLeastMinimum size + boundary - 4) ≠ 0 ∨
          osMemNodeGetAlignedFlag (atLeastMinimum size + boundary - 4) ≠ 0 then (heap, 0)
      else
        let allocated := Memory.osMemAlloc heap (atLeastMinimum size + boundary - 4)
        let alignedPtr := osMemAlign allocated.2 boundary
        if allocated.2 = alignedPtr then (allocated.1, allocated.2)
        else
          ((setAlignedFlag allocated.1 (allocated.2 - osMemNodeHeadSize)).store (alignedPtr - 4)
            ((alignedPtr - allocated.2) ||| osMemGapsizeAlignedFlag), alignedPtr) := by
    unfold Memory.losMemAllocAlign
    rw [if_neg bad]
    rfl
  rw [result]
  simp only [not_or, Bool.not_eq_true', Bool.not_eq_false] at bad
  obtain ⟨-, real, powTwo, aligned⟩ := bad
  obtain ⟨exponent, isPower⟩ := (osMemIsPowTwo_iff real).mp powTwo
  have whole : 4 ∣ boundary := (@osMemIsAligned_iff 2 boundary).mp aligned
  by_cases large : boundary - 4 > 2 ^ 32 - 1 - atLeastMinimum size
  · exact .inl (if_pos large)
  rw [if_neg large]
  by_cases flagged : osMemNodeGetUsedFlag (atLeastMinimum size + boundary - 4) ≠ 0 ∨
      osMemNodeGetAlignedFlag (atLeastMinimum size + boundary - 4) ≠ 0
  · exact .inl (if_pos flagged)
  rw [if_neg flagged]
  have small := flags_zero_lt (by omega) flagged
  have bound : exponent < 31 :=
    (Nat.pow_lt_pow_iff_right (by decide : 1 < 2)).mp (by omega : 2 ^ exponent < 2 ^ 31)
  rcases rest.osMemAlloc (by omega) (by omega) fits with
    none | ⟨blocks', address, total, enough, at', granted⟩
  · have zero : osMemAlign 0 boundary = 0 := by
      rw [isPower, osMemAlign_eq (by omega) (by omega), Nat.div_eq_of_lt (by omega), Nat.zero_mul]
    refine .inl ?_
    rw [none]
    simp only [zero, if_true]
  · obtain ⟨listed, represents⟩ := granted.rest.represents
    obtain ⟨lower, upper, -, blockSmall⟩ := represents.layout.bounds granted.member
    have upper' : address + total ≤ region.last := upper
    have end' := region.facts.2.2.2.2.2
    have addressAligned : 4 ∣ address := represents.layout.aligned granted.member
    obtain ⟨low, high, divides⟩ := @osMemAlign_bounds exponent (address + 8) (by omega) (by omega)
    rw [← isPower] at low high divides
    have four : 4 ∣ osMemAlign (address + 8) boundary := whole.trans divides
    cases allocated : Memory.osMemAlloc heap (atLeastMinimum size + boundary - 4) with
    | mk pool ptr =>
      rw [allocated] at at' granted
      obtain rfl : ptr = address + 8 := at'
      by_cases same : address + 8 = osMemAlign (address + 8) boundary
      · simp only [if_pos same]
        refine .inr ⟨blocks', _, granted, ⟨?_, .inl ⟨rfl, rfl⟩⟩, ?_⟩
        · show address + 8 + size ≤ address + total
          omega
        · rw [same]
          exact divides
      · simp only [if_neg same]
        have gapBound : osMemAlign (address + 8) boundary - (address + 8) < 2 ^ 30 := by omega
        have gapWord : (osMemAlign (address + 8) boundary - (address + 8)) |||
            osMemGapsizeAlignedFlag =
            osMemAlign (address + 8) boundary - (address + 8) + 2 ^ 30 :=
          Nat.or_two_pow_eq_add_of_lt gapBound
        obtain ⟨blocks'', aligned'⟩ := @Granted.align _ _ _ _ _ _ _
          (osMemAlign (address + 8) boundary - 4)
          (osMemAlign (address + 8) boundary - (address + 8) ||| osMemGapsizeAlignedFlag)
          granted (by omega) (by omega)
        refine .inr ⟨blocks'', _, aligned', ⟨?_, .inr ⟨rfl,
          osMemAlign (address + 8) boundary - (address + 8), ?_, ?_, ?_, ?_⟩⟩, divides⟩
        · show osMemAlign (address + 8) boundary + size ≤ address + total
          omega
        · omega
        · omega
        · show osMemAlign (address + 8) boundary =
            address + 8 + (osMemAlign (address + 8) boundary - (address + 8))
          omega
        · rw [gapWord]
          exact Function.update_self _ _ _

/-! ### Release -/

theorem AtRest.pointer_aligned (rest : AtRest region heap blocks) (member : block ∈ blocks)
    (owns : Owns heap block pointer size) : 4 ∣ pointer := by
  obtain ⟨listed, represents⟩ := rest.represents
  have aligned := represents.layout.aligned member
  rcases owns.place with ⟨-, same⟩ | ⟨-, gap, -, whole, same, -⟩
  · omega
  · omega

theorem Owns.kind (owns : Owns heap block pointer size) :
    ∃ aligned, block = ⟨block.address, block.size, .used aligned⟩ := by
  obtain ⟨address, total, kind⟩ := block
  rcases owns.place with ⟨same, -⟩ | ⟨same, -⟩
  · exact ⟨false, congrArg (Block.mk address total) same⟩
  · exact ⟨true, congrArg (Block.mk address total) same⟩

theorem members_around {front back : List Block}
    (layout : Layout region heap (front ++ block :: back)) (other : Block) :
    other ∈ front ++ back ↔ other ∈ front ++ block :: back ∧ other ≠ block := by
  simp only [mem_append, mem_cons]
  constructor
  · intro old
    refine ⟨old.imp id .inr, fun same => ?_⟩
    exact layout.address_ne (mem_append.mpr old) (congrArg Block.address same)
  · rintro ⟨inFront | same | inBack, differ⟩
    · exact .inl inFront
    · exact absurd same differ
    · exact .inr inBack

/-- The heap after a used node was taken away. -/
structure Removed (region : Region) (heap heap' : Heap) (blocks blocks' : List Block)
    (block : Block) : Prop where
  rest : AtRest region heap' blocks'
  members : ∀ other, other.kind ≠ .free → (other ∈ blocks' ↔ other ∈ blocks ∧ other ≠ block)
  kept : Kept heap heap' blocks'
  survives : Trace.Survives region heap heap' blocks blocks'

theorem AtRest.osMemFree_owned (rest : AtRest region heap blocks) (member : block ∈ blocks)
    (owns : Owns heap block pointer size) :
    (Memory.osMemFree heap block.address).2 = true ∧ ∃ blocks',
      Removed region heap (Memory.osMemFree heap block.address).1 blocks blocks' block := by
  obtain ⟨aligned, kind⟩ := owns.kind
  obtain ⟨front, back, rfl⟩ := append_of_mem member
  rw [kind] at rest
  obtain ⟨blocks', rest', freed, moves, survives⟩ := rest.osMemFree
  rw [← kind] at survives
  refine ⟨freed, blocks', rest', fun other held => ?_, moves.kept, survives⟩
  obtain ⟨listed, represents⟩ := rest.represents
  rw [moves.held other held, members_around represents.layout, ← kind]

theorem AtRest.losMemFree_eq (rest : AtRest region heap blocks) (aligned : 4 ∣ pointer)
    (positive : pointer ≠ 0) : Memory.losMemFree heap pointer =
      if Memory.osGetRealPtr heap pointer = 0 then (heap, false)
      else Memory.osMemFree heap (Memory.osGetRealPtr heap pointer - osMemNodeHeadSize) := by
  obtain ⟨listed, represents⟩ := rest.represents
  have poolAligned : osMemIsAligned heap.pool 4 = true := by
    refine (@osMemIsAligned_iff 2 heap.pool).mpr ?_
    rw [represents.layout.pool]
    exact region.poolAligned
  have pointerAligned : osMemIsAligned pointer 4 = true := (@osMemIsAligned_iff 2 pointer).mpr aligned
  have valid : ¬(pointer = 0 ∨ (!osMemIsAligned heap.pool 4) = true ∨
      (!osMemIsAligned pointer 4) = true) := by
    rw [poolAligned, pointerAligned]
    simp only [Bool.not_true, Bool.false_eq_true, or_false]
    exact positive
  unfold Memory.losMemFree
  rw [if_neg valid]

theorem AtRest.losMemFree (rest : AtRest region heap blocks) (member : block ∈ blocks)
    (owns : Owns heap block pointer size) : (Memory.losMemFree heap pointer).2 = true ∧ ∃ blocks',
      Removed region heap (Memory.losMemFree heap pointer).1 blocks blocks' block := by
  have real := rest.osGetRealPtr member owns
  have aligned := rest.pointer_aligned member owns
  have lower := owns.lower
  have result : Memory.losMemFree heap pointer = Memory.osMemFree heap block.address := by
    rw [rest.losMemFree_eq aligned (by omega), real]
    exact if_neg (Nat.succ_ne_zero _)
  rw [result]
  exact rest.osMemFree_owned member owns

/-! ### Reallocation -/

section Reallocation

variable {address nodeSize : Nat} {aligned : Bool}

theorem Granted.serves {others blocks' : List Block} {total : Nat}
    (granted : Granted region heap heap' others blocks' ⟨address, total, .used false⟩)
    (enough : size + 8 ≤ total) : Serves region heap others (heap', address + 8) size 4 := by
  obtain ⟨listed, represents⟩ := granted.rest.represents
  have whole : 4 ∣ address := represents.layout.aligned granted.member
  refine .inr ⟨blocks', _, granted, ⟨?_, .inl ⟨rfl, rfl⟩⟩, ?_⟩
  · show address + 8 + size ≤ address + total
    omega
  · omega

section

variable (rest : AtRest region heap (front ++ ⟨address, nodeSize, .used aligned⟩ :: back))
include rest

theorem AtRest.osMemReAllocSmaller
    (small : size < 2 ^ 31) (wide : 8 ≤ size) (enough : allocSizeOf size ≤ nodeSize) :
    Serves region heap (front ++ back)
      (Memory.osMemReAllocSmaller heap (allocSizeOf size) address nodeSize, address + 8) size 4 := by
  obtain ⟨lower, upper, whole⟩ := allocSizeOf_bounds small
  obtain ⟨holding, unmarkMoves, -⟩ := rest.unmark
  have settled : Settled (front ++ back) := rest.settled.around
  obtain ⟨left, back', trimmed, trimMoves, -, leftEnough⟩ := holding.trim
    (fun block inBack => settled block (mem_append_right _ inBack)) (by omega) whole enough
  have moves := unmarkMoves.trans trimMoves
  let unmarked := heap.setSizeAndFlag address nodeSize
  by_cases room : allocSizeOf size + osMemMinLeftSize ≤ nodeSize
  · have cut : Memory.trim unmarked address (allocSizeOf size) nodeSize =
        osMemSplitNode unmarked address (allocSizeOf size) := if_pos room
    have result : Memory.osMemReAllocSmaller heap (allocSizeOf size) address nodeSize =
        setUsedFlag { Memory.trim unmarked address (allocSizeOf size) nodeSize with
          curUsedSize := u32Sub (Memory.trim unmarked address (allocSizeOf size)
            nodeSize).curUsedSize (nodeSize - allocSizeOf size) } address := by
      rw [cut]
      unfold Memory.osMemReAllocSmaller
      simp only [if_pos room]
      rfl
    rw [result]
    exact ((trimmed.count _ _).grant (trimMoves.settled settled) (moves.counted _ _)).serves
      (lower.trans leftEnough)
  · have uncut : Memory.trim unmarked address (allocSizeOf size) nodeSize = unmarked := if_neg room
    have result : Memory.osMemReAllocSmaller heap (allocSizeOf size) address nodeSize =
        setUsedFlag (Memory.trim unmarked address (allocSizeOf size) nodeSize) address := by
      rw [uncut]
      unfold Memory.osMemReAllocSmaller
      simp only [if_neg room]
      rfl
    rw [result]
    exact (trimmed.grant (trimMoves.settled settled) moves).serves (lower.trans leftEnough)

theorem AtRest.osMemMergeNodeForReAllocBigger (small : size < 2 ^ 31) (wide : 8 ≤ size)
    (isFree : osMemNodeGetUsedFlag (heap.sizeAndFlag (address + nodeSize)) = 0)
    (enough : allocSizeOf size ≤ heap.sizeAndFlag (address + nodeSize) + nodeSize) :
    Serves region heap (front ++ back)
      (Memory.osMemMergeNodeForReAllocBigger heap (allocSizeOf size) address nodeSize
        (address + nodeSize), address + 8) size 4 := by
  obtain ⟨lower, upper, whole⟩ := allocSizeOf_bounds small
  obtain ⟨holding, unmarkMoves, -⟩ := rest.unmark
  have settled : Settled (front ++ back) := rest.settled.around
  have settledBack : Settled back := fun block inBack =>
    settled block (mem_append_right _ inBack)
  obtain ⟨total, back', joined, joinMoves, -, -, totalEq, -⟩ := holding.absorbNext settledBack
  have settled' : Settled (front ++ back') := joinMoves.settled settled
  let unmarked := heap.setSizeAndFlag address nodeSize
  obtain ⟨listed, represents⟩ := joined.represents
  have nodeWide : 16 ≤ nodeSize := by
    obtain ⟨listed', represents'⟩ := holding.represents
    have member : ⟨address, nodeSize, .loose⟩ ∈
        front ++ (⟨address, nodeSize, .loose⟩ : Block) :: back :=
      mem_append_right _ mem_cons_self
    exact (represents'.layout.bounds member).2.2.1
  have nextWord : unmarked.sizeAndFlag (address + nodeSize) =
      heap.sizeAndFlag (address + nodeSize) :=
    Function.update_of_ne (show address + nodeSize + 4 ≠ address + 4 by omega) _ _
  have isFree' : osMemNodeGetUsedFlag (unmarked.sizeAndFlag (address + nodeSize)) = 0 := by
    rw [nextWord]
    exact isFree
  have totalSize : total = nodeSize + heap.sizeAndFlag (address + nodeSize) := by
    rw [← nextWord]
    exact totalEq isFree'
  have merged : absorb unmarked (address + nodeSize) (address + nodeSize) =
      osMemMergeNode (osMemFreeNodeDelete unmarked (address + nodeSize)) (address + nodeSize) :=
    if_pos isFree'
  obtain ⟨left, back'', trimmed, trimMoves, -, leftEnough⟩ := joined.trim
    (fun block inBack => settled' block (mem_append_right _ inBack)) (by omega) whole
    (by omega)
  have granted := trimmed.grant (trimMoves.settled settled')
    ((unmarkMoves.trans joinMoves).trans trimMoves)
  have word : (absorb unmarked (address + nodeSize) (address + nodeSize)).sizeAndFlag address =
      total :=
    (represents.layout.headed ⟨address, total, .loose⟩
      (mem_append_right _ mem_cons_self)).word
  have result : Memory.osMemMergeNodeForReAllocBigger heap (allocSizeOf size) address nodeSize
      (address + nodeSize) =
      osMemWaterUsedRecord (setUsedFlag (Memory.trim (absorb unmarked (address + nodeSize)
          (address + nodeSize)) address (allocSizeOf size) total) address)
        (u32Sub (osMemNodeGetSize ((setUsedFlag (Memory.trim (absorb unmarked (address + nodeSize)
          (address + nodeSize)) address (allocSizeOf size) total) address).sizeAndFlag address))
          nodeSize) := by
    rw [← word, merged]
    rfl
  rw [result]
  exact (granted.count _ _).serves (lower.trans leftEnough)

theorem Granted.replace {blocks' : List Block} {fresh : Block} {memory' : Nat → Nat}
    (granted : Granted region heap heap' (front ++ ⟨address, nodeSize, .used aligned⟩ :: back)
      blocks' fresh) (outside : ∀ place, place < fresh.address + 8 ∨ fresh.stop ≤ place →
      memory' place = heap'.memory place) : ∃ blocks'', Granted region heap
      (osMemFree { heap' with memory := memory' } address).1 (front ++ back) blocks'' fresh := by
  obtain ⟨listed, represents⟩ := rest.represents
  have oldMember : ⟨address, nodeSize, .used aligned⟩ ∈
      front ++ (⟨address, nodeSize, .used aligned⟩ : Block) :: back :=
    mem_append_right _ mem_cons_self
  have used : NodeKind.used aligned ≠ .free := nofun
  have stillOld : ⟨address, nodeSize, .used aligned⟩ ∈ blocks' :=
    (granted.members _ used).mpr (.inl oldMember)
  have freshNotOld : fresh ≠ ⟨address, nodeSize, .used aligned⟩ := fun same => by
    refine granted.fresh _ oldMember used ?_
    rw [same]
  obtain ⟨copied, copyKept⟩ := granted.rest.scribble granted.member granted.held outside
  obtain ⟨front', back', rfl⟩ := append_of_mem stillOld
  obtain ⟨blocks'', rest'', -, moves, -⟩ := copied.osMemFree
  obtain ⟨listed', represents'⟩ := copied.represents
  have around := members_around represents.layout
  have around' := members_around represents'.layout
  refine ⟨blocks'', rest'', granted.held, fun other held => ?_, fun other old held => ?_,
    fun other old held place lower upper => ?_⟩
  · rw [moves.held other held, around', granted.members other held, around]
    constructor
    · rintro ⟨old | same, differ⟩
      · exact .inl ⟨old, differ⟩
      · exact .inr same
    · rintro (⟨old, differ⟩ | same)
      · exact ⟨.inl old, differ⟩
      · exact ⟨.inr same, same ▸ freshNotOld⟩
  · exact granted.fresh other ((around other).mp old).1 held
  · obtain ⟨old', differ⟩ := (around other).mp old
    have still : other ∈ front' ++ (⟨address, nodeSize, .used aligned⟩ : Block) :: back' :=
      (granted.members other held).mpr (.inl old')
    have notFresh : other ≠ fresh := fun same =>
      granted.fresh other old' held (congrArg Block.address same)
    have last : other ∈ blocks'' := (moves.held other held).mpr ((around' other).mpr ⟨still, differ⟩)
    exact ((moves.kept other last held place lower upper).trans
      (copyKept other still notFresh place (Nat.le_of_add_right_le lower) upper)).trans
      (granted.kept other old' held place lower upper)

theorem AtRest.osMemRealloc
    (small : size < 2 ^ 30) (wide : 8 ≤ size) (fits : ClassFits heap (allocSizeOf size)) :
    Serves region heap (front ++ back) (Memory.osMemRealloc heap (address + 8) address size) size
      4 := by
  obtain ⟨lower, upper, whole⟩ := @allocSizeOf_bounds size (by omega)
  obtain ⟨listed, represents⟩ := rest.represents
  have member : ⟨address, nodeSize, .used aligned⟩ ∈
      front ++ (⟨address, nodeSize, .used aligned⟩ : Block) :: back :=
    mem_append_right _ mem_cons_self
  obtain ⟨-, -, nodeWide, nodeSmall⟩ := represents.layout.bounds member
  have nodeWhole : 4 ∣ nodeSize := (represents.layout.headed _ member).whole
  have getSize : osMemNodeGetSize (heap.sizeAndFlag address) = nodeSize := by
    rw [show heap.sizeAndFlag address = Block.word ⟨address, nodeSize, .used aligned⟩ from
      represents.sizeAndFlag_eq member]
    exact size_word nodeSmall
  have nextNode : heap.nextNode address = address + nodeSize := congrArg (address + ·) getSize
  have allocSizeEq : osMemAlign (size + osMemNodeHeadSize) osMemAlignSize = allocSizeOf size := rfl
  by_cases smaller : allocSizeOf size ≤ nodeSize
  · have result : Memory.osMemRealloc heap (address + 8) address size =
        (Memory.osMemReAllocSmaller heap (allocSizeOf size) address nodeSize, address + 8) := by
      simp only [Memory.osMemRealloc, getSize, allocSizeEq, ge_iff_le, if_pos smaller]
    rw [result]
    exact rest.osMemReAllocSmaller (by omega) wide smaller
  · by_cases joins : osMemNodeGetUsedFlag (heap.sizeAndFlag (address + nodeSize)) = 0 ∧
        allocSizeOf size ≤ heap.sizeAndFlag (address + nodeSize) + nodeSize
    · have result : Memory.osMemRealloc heap (address + 8) address size =
          (Memory.osMemMergeNodeForReAllocBigger heap (allocSizeOf size) address nodeSize
            (address + nodeSize), address + 8) := by
        simp only [Memory.osMemRealloc, getSize, allocSizeEq, nextNode, ge_iff_le, if_neg smaller,
          if_pos joins]
      rw [result]
      exact rest.osMemMergeNodeForReAllocBigger (by omega) wide joins.1 joins.2
    · rcases rest.osMemAlloc wide (by omega) fits with
        none | ⟨blocks', fresh, total, enough, at', granted⟩
      · refine .inl ?_
        simp only [Memory.osMemRealloc, getSize, allocSizeEq, nextNode, ge_iff_le, if_neg smaller,
          if_neg joins, none, ne_eq, not_true, if_false]
      have copyFits : nodeSize - osMemNodeHeadSize ≤ size := by
        unfold osMemNodeHeadSize
        omega
      cases allocated : Memory.osMemAlloc heap size with
      | mk pool ptr =>
        rw [allocated] at at' granted
        obtain rfl : ptr = fresh + 8 := at'
        have nonzero : fresh + 8 ≠ 0 := Nat.succ_ne_zero _
        have result : Memory.osMemRealloc heap (address + 8) address size =
            ((Memory.osMemFree { pool with
              memory := fun place =>
                if fresh + 8 ≤ place ∧ place < fresh + 8 + (nodeSize - osMemNodeHeadSize) then
                  pool.memory (address + 8 + (place - (fresh + 8)))
                else pool.memory place } address).1, fresh + 8) := by
          simp only [Memory.osMemRealloc, getSize, allocSizeEq, nextNode, ge_iff_le,
            if_neg smaller, if_neg joins, allocated, ne_eq, nonzero, not_false_eq_true, if_true,
            memcpyS, if_pos copyFits]
        rw [result]
        have outside : ∀ place, place < fresh + 8 ∨ fresh + total ≤ place →
            (if fresh + 8 ≤ place ∧ place < fresh + 8 + (nodeSize - osMemNodeHeadSize) then
              pool.memory (address + 8 + (place - (fresh + 8)))
            else pool.memory place) = pool.memory place := fun place away => by
          refine if_neg fun inside => ?_
          omega
        obtain ⟨blocks'', replaced⟩ := granted.replace rest outside
        exact replaced.serves enough

theorem AtRest.losMemRealloc
    (owns : Owns heap ⟨address, nodeSize, .used aligned⟩ pointer size) {newSize : Nat}
    (word : newSize < 2 ^ 32) (positive : newSize ≠ 0)
    (fits : ClassFits heap (allocSizeOf (atLeastMinimum newSize))) :
    Serves region heap (front ++ back) (Memory.losMemRealloc heap pointer newSize) newSize 4 := by
  have member : ⟨address, nodeSize, .used aligned⟩ ∈
      front ++ (⟨address, nodeSize, .used aligned⟩ : Block) :: back :=
    mem_append_right _ mem_cons_self
  have real := rest.osGetRealPtr member owns
  have lower := owns.lower
  obtain ⟨le, wide⟩ := atLeastMinimum_bounds newSize
  by_cases flagged : osMemNodeGetUsedFlag newSize ≠ 0 ∨ osMemNodeGetAlignedFlag newSize ≠ 0
  · exact .inl (if_pos flagged)
  have small := flags_zero_lt word flagged
  have smallMin : atLeastMinimum newSize < 2 ^ 30 := by
    unfold atLeastMinimum osMemMinAllocSize
    split
    · decide
    · exact small
  have result : Memory.losMemRealloc heap pointer newSize =
      Memory.osMemRealloc heap (address + 8) address (atLeastMinimum newSize) := by
    have nonzero : pointer ≠ 0 := by omega
    have real' : Memory.osGetRealPtr heap pointer = address + 8 := real
    have valid : osMemCheckUsedNode heap (address + 8 - osMemNodeHeadSize) = true :=
      rest.checkUsedNode
    unfold Memory.losMemRealloc
    rw [if_neg flagged, if_neg nonzero, if_neg positive]
    simp only [real', if_neg (Nat.succ_ne_zero _ : address + 8 ≠ 0), if_pos valid]
    rfl
  rw [result]
  rcases rest.osMemRealloc smallMin wide fits with none | ⟨blocks', block, granted, owns', aligned⟩
  · exact .inl none
  · refine .inr ⟨blocks', block, granted, ⟨?_, owns'.place⟩, aligned⟩
    exact (Nat.add_le_add_left le _).trans owns'.fits

end

end Reallocation

end TowerSafe.Memory
