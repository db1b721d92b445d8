/-
This file proves when the allocator finds a free node that is large enough. The search misses no
size class from that of the request on, and in the class of the request it compares every node. So
a request fails only for want of a free node of its own class or a later one; but the classes of
nodes from 2^29 bytes on are computed with a shift that wraps, and a request may look behind them.
-/

import Mathlib.Data.List.Perm.Subperm
import TowerSafe.Memory.Client

namespace TowerSafe.Memory

open Library List

/-! ### The search misses nothing -/

theorem osMemScanBitmap_none {heap : Heap} {fuel index : Nat} (aligned : 32 ∣ index)
    (none : osMemScanBitmap heap fuel index = none) {other : Nat} (lower : index ≤ other)
    (upper : other < index + 32 * fuel) (bound : other < osMemFreeListCount) :
    freeListBit heap other = false := by
  induction fuel generalizing index with
  | zero => omega
  | succ fuel hypothesis =>
    rw [osMemScanBitmap, if_pos (lower.trans_lt bound)] at none
    by_cases empty : heap.freeListBitmap (index >>> 5) = 0
    · simp only [empty, ne_eq, not_true_eq_false, if_false] at none
      by_cases here : other < index + 32
      · unfold freeListBit
        rw [index_shift, show other / 32 = index / 32 by omega, ← index_shift, empty]
        exact BitVec.getLsbD_zero
      · exact hypothesis (by omega) none (Nat.le_of_not_lt here) (by omega)
    · rw [if_pos empty] at none
      cases none

theorem osMemFindCurSuitableBlock_ne_zero {heap : Heap} {size fuel node before : Nat}
    {nodes : List Nat} (path : Path heap.prev heap.next before node nodes 0) (real : 0 ∉ nodes)
    (turns : nodes.length ≤ fuel) {fitting : Nat} (member : fitting ∈ nodes)
    (enough : size ≤ heap.sizeAndFlag fitting) :
    osMemFindCurSuitableBlock heap size fuel node ≠ 0 := by
  induction nodes generalizing fuel node before with
  | nil => cases member
  | cons head rest hypothesis =>
    obtain ⟨rfl, -, tail⟩ := path
    rw [mem_cons, not_or] at real
    obtain ⟨fuel, rfl⟩ := Nat.exists_eq_add_of_lt (Nat.lt_of_lt_of_le (Nat.succ_pos _) turns)
    rw [osMemFindCurSuitableBlock, if_neg (Ne.symm real.1)]
    by_cases large : heap.sizeAndFlag node ≥ size
    · rw [if_pos large]
      exact Ne.symm real.1
    rw [if_neg large]
    rcases mem_cons.mp member with rfl | later
    · exact absurd enough large
    · exact hypothesis tail real.2 (by rw [length_cons] at turns; omega) later

theorem osMemFindNextSuitableBlock_ne_zero {heap : Heap} {listed : Nat → List Nat}
    {request index node : Nat} (lists : FreeLists heap listed) (bound : index < osMemFreeListCount)
    (member : node ∈ listed index) (turns : (listed index).length ≤ heap.totalSize)
    (later : osMemFreeListIndexGet request ≤ index) (enough : request ≤ heap.sizeAndFlag node) :
    (osMemFindNextSuitableBlock heap request).1 ≠ 0 := by
  let fl := osMemFlGet request
  let curIndex := if fl < osMemSmallBucketCount then osMemFreeListCount
    else u32 (((fl - osMemSmallBucketCount) <<< osMemSli) + osMemSlGet request fl +
      osMemSmallBucketCount)
  let start := if fl < osMemSmallBucketCount then fl else curIndex + 1
  have starts : start ≤ index ∨ ¬fl < osMemSmallBucketCount ∧ index = curIndex := by
    unfold osMemFreeListIndexGet at later
    by_cases small : fl < osMemSmallBucketCount
    · rw [if_pos small] at later
      exact .inl ((if_pos small).trans_le later)
    rw [if_neg small, Nat.add_comm osMemSmallBucketCount] at later
    have same : start = curIndex + 1 := if_neg small
    have value : curIndex = _ := if_neg small
    rw [Nat.add_right_comm] at value
    have later : curIndex ≤ index := value.trans_le later
    omega
  have startBound : start ≤ 223 := by
    have less : index < 223 := bound
    rcases starts with le | ⟨large, same⟩
    · omega
    · have next : start = curIndex + 1 := if_neg large
      omega
  have headReal : ∀ {found}, found ≤ osMemFreeListCount → freeListBit heap found = true →
      heap.freeList found ≠ 0 := by
    intro found le set zero
    obtain ⟨less, some⟩ := (lists.bitmap found le).mp set
    exact some ((lists.first_eq_zero_iff less).mp zero)
  have set : freeListBit heap index = true :=
    (lists.bitmap index (Nat.le_of_lt bound)).mpr ⟨bound, ne_nil_of_mem member⟩
  by_cases here : osMemNotEmptyIndexGet heap start ≠ osMemFreeListCount
  · have result : osMemFindNextSuitableBlock heap request =
        (heap.freeList (osMemNotEmptyIndexGet heap start), osMemNotEmptyIndexGet heap start) :=
      if_pos here
    rw [result]
    rcases @osMemNotEmptyIndexGet_spec heap _ startBound with ⟨none, -⟩ | ⟨first, le⟩
    · exact absurd none here
    · exact headReal le first.2.1
  · obtain ⟨aligned, next⟩ := osMemAlign_succ startBound
    cases scan : osMemScanBitmap heap 7 (osMemAlign (start + 1) 32) with
    | some other =>
      have result : osMemFindNextSuitableBlock heap request = (heap.freeList other, other) := by
        refine (if_neg here).trans ?_
        rw [scan]
      rw [result]
      obtain ⟨first, le⟩ := osMemScanBitmap_spec aligned scan
      exact headReal le first.2.1
    | none =>
      have before : index < start := by
        by_contra behind
        have clear : freeListBit heap index = false := by
          by_cases sameWord : index < (start / 32 + 1) * 32
          · rcases @osMemNotEmptyIndexGet_spec heap _ startBound with ⟨-, empty⟩ | ⟨first, le⟩
            · exact empty index (Nat.le_of_not_lt behind) sameWord
            · rw [not_not.mp here] at first
              exact absurd ((lists.bitmap _ le_rfl).mp first.2.1).1 (lt_irrefl _)
          · have less : index < 223 := bound
            exact osMemScanBitmap_none aligned scan (by omega) (by omega) bound
        rw [set] at clear
        cases clear
      obtain ⟨large, same⟩ := starts.resolve_left (Nat.not_le.mpr before)
      have result : osMemFindNextSuitableBlock heap request =
          (osMemFindCurSuitableBlock heap request heap.totalSize (heap.freeList curIndex),
            curIndex) := by
        refine (if_neg here).trans ?_
        rw [scan]
        have real : curIndex ≠ osMemFreeListCount := same.symm.trans_ne (Nat.ne_of_lt bound)
        exact if_neg real
      rw [result, ← same]
      have linked := lists.linked index bound
      exact osMemFindCurSuitableBlock_ne_zero linked.path linked.real turns member enough

/-! ### Requests -/

variable {region : Region} {heap : Heap} {blocks : List Block} {size : Nat}

/-- Some free node is large enough for a request, head included. -/
def HasRoom (blocks : List Block) (allocSize : Nat) : Prop :=
  ∃ block ∈ blocks, block.kind = .free ∧ allocSize ≤ block.size

/-- Some free node that is large enough is in a size class that the search looks at. -/
def HasRoomInClass (blocks : List Block) (allocSize : Nat) : Prop :=
  ∃ block ∈ blocks, block.kind = .free ∧ allocSize ≤ block.size ∧
    osMemFreeListIndexGet allocSize ≤ osMemFreeListIndexGet block.size

theorem Represents.length_listed {listed : Nat → List Nat} {index : Nat}
    (represents : Represents region heap blocks listed) (bound : index < osMemFreeListCount) :
    (listed index).length ≤ heap.totalSize := by
  have within : listed index ⊆ blocks.map Block.address := fun node member => by
    obtain ⟨length, inBlocks, -⟩ := (represents.classed index bound node).mp member
    exact mem_map_of_mem inBlocks
  have fewer := (subperm_of_subset (represents.lists.linked index bound).distinct
    within).length_le
  rw [length_map] at fewer
  have tiled := represents.layout.tiles.length_le
  have whole : region.last ≤ region.first + region.size := by
    unfold Region.last Region.first
    omega
  rw [represents.layout.totalSize]
  omega

/-- A request fails exactly when the classes that the search looks at have no node for it. -/
theorem AtRest.osMemAlloc_eq_zero_iff (rest : AtRest region heap blocks) (word : size < 2 ^ 31)
    (small : allocSizeOf size < 2 ^ 29) :
    (Memory.osMemAlloc heap size).2 = 0 ↔ ¬HasRoomInClass blocks (allocSizeOf size) := by
  obtain ⟨lower, -, whole⟩ := allocSizeOf_bounds word
  have got : (Memory.osMemAlloc heap size).2 =
      if (Memory.osMemFreeNodeGet heap (allocSizeOf size)).2 = 0 then 0
      else (Memory.osMemFreeNodeGet heap (allocSizeOf size)).2 + 8 := by
    unfold Memory.osMemAlloc
    show (if (Memory.osMemFreeNodeGet heap (allocSizeOf size)).2 = 0 then _ else _ : Heap × Nat).2 = _
    split <;> rfl
  rw [got]
  rcases rest.osMemFreeNodeGet (by omega) whole (by omega) (rest.classFits small) with
    none | ⟨front, back, address, length, rfl, real, enough, found⟩
  · rw [none]
    refine iff_of_true rfl ?_
    rintro ⟨⟨address, length, kind⟩, member, rfl, enough, later⟩
    obtain ⟨listed, represents⟩ := rest.represents
    obtain ⟨bound, inList⟩ := represents.mem_listed member
    have turns := represents.length_listed bound
    have word : heap.sizeAndFlag address = length := represents.sizeAndFlag_eq member
    refine osMemFindNextSuitableBlock_ne_zero represents.lists bound inList turns later
      (enough.trans_eq word.symm) ?_
    by_contra some
    have result := congrArg Prod.snd none
    rw [Memory.osMemFreeNodeGet, if_neg some] at result
    exact some result
  · rw [found, if_neg real]
    refine iff_of_false (Nat.succ_ne_zero _) (not_not.mpr ?_)
    obtain ⟨listed, represents⟩ := rest.represents
    have some : (osMemFindNextSuitableBlock heap (allocSizeOf size)).1 = address := by
      have result := congrArg Prod.snd found
      rw [Memory.osMemFreeNodeGet] at result
      split at result
      · exact absurd result (Ne.symm real)
      · exact result
    obtain ⟨bound, inList, which⟩ := osMemFindNextSuitableBlock_spec represents.lists
      (osMemFreeListIndexGet_lt (by omega) (by omega)) (some.trans_ne real)
    rw [some] at inList
    obtain ⟨length', inBlocks, class'⟩ := (represents.classed _ bound _).mp inList
    refine ⟨_, mem_append_right _ mem_cons_self, rfl, enough, ?_⟩
    have same := represents.layout.eq_of_address_eq inBlocks
      (mem_append_right _ mem_cons_self) rfl
    obtain rfl : length' = length := congrArg Block.size same
    rw [class']
    rcases which with ⟨here, -⟩ | ⟨first, -⟩ | ⟨here, -⟩
    · exact here.ge
    · exact (Nat.le_succ _).trans first.1
    · exact here.ge

/-- Failing means that there is no free node large enough exactly when, if there is one, there is
one in a size class that the search looks at. -/
theorem osMemAlloc_complete_iff (rest : AtRest region heap blocks) (word : size < 2 ^ 31)
    (small : allocSizeOf size < 2 ^ 29) :
    ((osMemAlloc heap size).2 = 0 ↔ ¬HasRoom blocks (allocSizeOf size)) ↔
      (HasRoom blocks (allocSizeOf size) → HasRoomInClass blocks (allocSizeOf size)) := by
  rw [rest.osMemAlloc_eq_zero_iff word small]
  have weaker : HasRoomInClass blocks (allocSizeOf size) → HasRoom blocks (allocSizeOf size) :=
    fun ⟨block, member, free, enough, _⟩ => ⟨block, member, free, enough⟩
  tauto

/-- A region of one free node of 2^29 bytes, whose class is before that of smaller requests. -/
def wideRegion : Region where
  pool := 4096
  size := 2 ^ 29 + 952
  real := by decide
  poolAligned := by decide
  sizeAligned := by decide
  roomy := by decide
  bounded := by decide
  inside := by decide

theorem osMemAlloc_complete_iff_sample :
    (osMemAlloc (osMemPoolInit (fun _ => 0) 4096 (2 ^ 29 + 952)) 100).2 = 0 ↔
      ¬HasRoom [⟨wideRegion.first, wideRegion.last - wideRegion.first, .free⟩] (allocSizeOf 100) :=
  (osMemAlloc_complete_iff (osMemPoolInit_atRest wideRegion _) (by decide) (by decide)).mpr
    fun _ => ⟨_, List.mem_cons_self, rfl, by decide, by decide⟩

/-- In that region a request that fits the node fails. -/
theorem osMemAlloc_misses_node :
    ¬∀ region heap blocks size, AtRest region heap blocks → size < 2 ^ 31 →
      allocSizeOf size < 2 ^ 29 →
      ((osMemAlloc heap size).2 = 0 ↔ ¬HasRoom blocks (allocSizeOf size)) := by
  intro claim
  have failed : (osMemAlloc (osMemPoolInit (fun _ => 0) 4096 (2 ^ 29 + 952))
      (0x1E000000 - 8)).2 = 0 := by decide
  refine (claim wideRegion _ _ _ (osMemPoolInit_atRest wideRegion _) (by decide) (by decide)).mp
    failed ⟨_, List.mem_cons_self, rfl, ?_⟩
  decide

end TowerSafe.Memory
