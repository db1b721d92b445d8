/-
This file embeds the static memory box of `los_membox.c` and proves what its blocks promise: the
free blocks are a list that ends, inside the pool, every other block is counted, no block is
handed out twice, and nothing but a block that is handed out can be freed. A block that is handed
out is told from a free one by a magic word in the place of its link, so the promise needs that
no link looks like that word. It does when a block of the pool starts at such an address.

Addresses have 32 bits. The pool header is a record, and of the blocks only the first word is
read. The link of one pool to the next one is left out.
-/

import Mathlib
import TowerSafe.Library.FreeList
import TowerSafe.Library.Transition

namespace TowerSafe.Membox

open Library List
open Function (update update_self update_of_ne)

/-! ### The pool -/

/-- What the build decides: whether the header has the link of `LOSCFG_PLATFORM_EXC`, and
`LOSCFG_BASE_CORE_TSK_LIMIT`. -/
structure Config where
  platformExc : Bool
  tskLimit : Nat

/-- `sizeof(LOS_MEMBOX_INFO)`. -/
def Config.infoSize (config : Config) : Nat :=
  if config.platformExc then 20 else 16

def osMemboxMagic : Nat := 0xa55a5a00

def osMemboxNodeHeadSize : Nat := 4

def losMemboxAligned (memAddr : Nat) : Nat :=
  (memAddr + 3) % 2 ^ 32 / 4 * 4

/-- `LOS_MEMBOX_INFO` with its address, and the first words of the blocks. -/
structure MemboxInfo where
  pool : Nat
  uwBlkSize : Nat
  uwBlkNum : Nat
  uwBlkCnt : Nat
  stFreeList : Nat
  pstNext : Nat → Nat

namespace MemboxInfo

variable (config : Config) (boxInfo : MemboxInfo)

/-- `boxInfo + 1`, the address of the first block. -/
def blocks : Nat :=
  boxInfo.pool + config.infoSize

def block (index : Nat) : Nat :=
  boxInfo.blocks config + index * boxInfo.uwBlkSize

/-- The loop of `LOS_MemboxInit` that links every block to the next one, and the last one to
`NULL`. -/
def linkNodes (blkSize : Nat) : Nat → Nat → (Nat → Nat) → Nat → Nat
  | 0, node, pstNext => update pstNext node 0
  | count + 1, node, pstNext =>
      linkNodes blkSize count ((node + blkSize) % 2 ^ 32)
        (update pstNext node ((node + blkSize) % 2 ^ 32))

/-- `LOS_MemboxInit`, over memory with the given words. -/
def losMemboxInit (pstNext : Nat → Nat) (pool poolSize blkSize : Nat) : Option MemboxInfo :=
  if pool = 0 then none
  else if blkSize = 0 then none
  else if poolSize < config.infoSize then none
  else
    let uwBlkSize := losMemboxAligned ((blkSize + osMemboxNodeHeadSize) % 2 ^ 32)
    let uwBlkNum := (poolSize - config.infoSize) / uwBlkSize
    if uwBlkNum = 0 then none
    else
      some
        { pool := pool
          uwBlkSize := uwBlkSize
          uwBlkNum := uwBlkNum
          uwBlkCnt := 0
          stFreeList := pool + config.infoSize
          pstNext := linkNodes uwBlkSize (uwBlkNum - 1) (pool + config.infoSize) pstNext }

/-- `OsMemBoxCheckMagic` of the first word of a block. -/
def osMemBoxCheckMagic (word : Nat) : Bool :=
  if word % 2 ^ 8 > config.tskLimit + 1 then false
  else word = osMemboxMagic ||| word % 2 ^ 8

def osCheckBoxMem (node : Nat) : Bool :=
  if boxInfo.uwBlkSize = 0 then false
  else
    let offset := (node + 2 ^ 32 - boxInfo.blocks config) % 2 ^ 32
    if offset % boxInfo.uwBlkSize ≠ 0 then false
    else if offset / boxInfo.uwBlkSize ≥ boxInfo.uwBlkNum then false
    else osMemBoxCheckMagic config (boxInfo.pstNext node)

/-- `LOS_MemboxAlloc` by the task with an identifier: the box, or `NULL`. -/
def losMemboxAlloc (curTaskID : Nat) : MemboxInfo × Nat :=
  if boxInfo.stFreeList ≠ 0 then
    ({ boxInfo with
        stFreeList := boxInfo.pstNext boxInfo.stFreeList
        pstNext :=
          update boxInfo.pstNext boxInfo.stFreeList (osMemboxMagic ||| curTaskID % 2 ^ 8)
        uwBlkCnt := (boxInfo.uwBlkCnt + 1) % 2 ^ 32 },
      boxInfo.stFreeList + osMemboxNodeHeadSize)
  else (boxInfo, 0)

/-- `OS_MEMBOX_NODE_ADDR`, which wraps. -/
def osMemboxNodeAddr (box : Nat) : Nat :=
  if box < osMemboxNodeHeadSize then box + (2 ^ 32 - osMemboxNodeHeadSize)
  else box - osMemboxNodeHeadSize

/-- `uwBlkCnt--`, which wraps. -/
def decrement (count : Nat) : Nat :=
  if count = 0 then 2 ^ 32 - 1 else count - 1

/-- `LOS_MemboxFree`, with whether it succeeds. -/
def losMemboxFree (box : Nat) : MemboxInfo × Bool :=
  if box = 0 then (boxInfo, false)
  else if !boxInfo.osCheckBoxMem config (osMemboxNodeAddr box) then (boxInfo, false)
  else
    ({ boxInfo with
        stFreeList := osMemboxNodeAddr box
        pstNext := update boxInfo.pstNext (osMemboxNodeAddr box) boxInfo.stFreeList
        uwBlkCnt := decrement boxInfo.uwBlkCnt }, true)

end MemboxInfo

/-! ### Runs -/

/-- A pool with the boxes that are handed out. -/
structure State where
  boxInfo : MemboxInfo
  outstanding : List Nat

/-- A call on a pool. -/
inductive Action where
  | alloc (curTaskID : Nat)
  | free (box : Nat)
  deriving DecidableEq

/-- A call on a pool; a pointer has 32 bits. -/
def step (config : Config) (state : State) : Action → Option State
  | .alloc curTaskID =>
      some
        { boxInfo := (state.boxInfo.losMemboxAlloc curTaskID).1
          outstanding :=
            if (state.boxInfo.losMemboxAlloc curTaskID).2 = 0 then state.outstanding
            else (state.boxInfo.losMemboxAlloc curTaskID).2 :: state.outstanding }
  | .free box =>
      if box < 2 ^ 32 then
        some
          { boxInfo := (state.boxInfo.losMemboxFree config box).1
            outstanding :=
              if (state.boxInfo.losMemboxFree config box).2 then state.outstanding.erase box
              else state.outstanding }
      else none

def pointer (word : Nat) : Option Nat :=
  if word = 0 then none else some word

/-- What the blocks of a pool promise: the free ones are a list that ends, inside the pool, the
others are counted, no box is handed out twice, and only boxes that are handed out can be
freed. -/
structure InOrder (config : Config) (poolSize : Nat) (state : State) : Prop where
  free : ∃ free, Threads (pointer ∘ state.boxInfo.pstNext) (pointer state.boxInfo.stFreeList) free ∧
    free.Nodup ∧ (∀ node ∈ free, state.boxInfo.blocks config ≤ node ∧
      node + state.boxInfo.uwBlkSize ≤ state.boxInfo.pool + poolSize) ∧
    free.length + state.boxInfo.uwBlkCnt = state.boxInfo.uwBlkNum
  once : state.outstanding.Nodup
  fresh : ∀ curTaskID, (state.boxInfo.losMemboxAlloc curTaskID).2 ∉ state.outstanding
  guarded : ∀ box < 2 ^ 32, box ∉ state.outstanding →
    state.boxInfo.losMemboxFree config box = (state.boxInfo, false)

/-! ### The blocks of a pool -/

namespace MemboxInfo

variable {config : Config} {boxInfo : MemboxInfo} {node index : Nat}

/-- The blocks of a pool fit the address space. -/
structure Fits (config : Config) (boxInfo : MemboxInfo) : Prop where
  real : 0 < boxInfo.pool
  size : 8 ≤ boxInfo.uwBlkSize
  space : boxInfo.block config boxInfo.uwBlkNum ≤ 2 ^ 32

theorem block_succ : boxInfo.block config (index + 1) =
    boxInfo.block config index + boxInfo.uwBlkSize := by
  rw [block, block, Nat.succ_mul]
  omega

theorem block_le (low : index < boxInfo.uwBlkNum) :
    boxInfo.block config index + boxInfo.uwBlkSize ≤ boxInfo.block config boxInfo.uwBlkNum := by
  rw [← block_succ]
  exact Nat.add_le_add_left (Nat.mul_le_mul_right _ low) _

section

variable (fits : boxInfo.Fits config)
include fits

theorem Fits.blkNum_lt : boxInfo.uwBlkNum < 2 ^ 32 := by
  have size := fits.size
  have space := fits.space
  rw [block] at space
  have := Nat.mul_le_mul_left boxInfo.uwBlkNum size
  omega

theorem Fits.block_pos : 0 < boxInfo.block config index := by
  have real := fits.real
  rw [block, blocks]
  omega

theorem Fits.block_inj {first second : Nat}
    (same : boxInfo.block config first = boxInfo.block config second) : first = second := by
  have size := fits.size
  exact Nat.eq_of_mul_eq_mul_right (by omega) (Nat.add_left_cancel same)

/-- The check of `OsCheckBoxMem`: a block with the magic word. -/
theorem Fits.osCheckBoxMem_iff (low : node < 2 ^ 32) :
    boxInfo.osCheckBoxMem config node = true ↔
      (∃ index < boxInfo.uwBlkNum, node = boxInfo.block config index) ∧
        osMemBoxCheckMagic config (boxInfo.pstNext node) = true := by
  have size := fits.size
  have space := fits.space
  rw [osCheckBoxMem, if_neg (by omega)]
  dsimp only
  constructor
  · intro checked
    split at checked
    · exact absurd checked (by simp)
    rename_i whole
    rw [not_not] at whole
    split at checked
    · exact absurd checked (by simp)
    rename_i inside
    rw [Nat.not_le] at inside
    refine ⟨⟨_, inside, ?_⟩, checked⟩
    have exactly := Nat.div_mul_cancel (Nat.dvd_of_mod_eq_zero whole)
    have reach := @block_le config boxInfo _ inside
    rw [block] at reach ⊢
    omega
  · rintro ⟨⟨index, inside, rfl⟩, magic⟩
    have reach := @block_le config boxInfo _ inside
    have offset : (boxInfo.block config index + 2 ^ 32 - boxInfo.blocks config) % 2 ^ 32 =
        index * boxInfo.uwBlkSize := by
      rw [block] at reach ⊢
      omega
    rw [offset, if_neg (by simp), Nat.mul_div_cancel _ (by omega), if_neg (by omega)]
    exact magic

end

theorem osMemboxNodeAddr_add : osMemboxNodeAddr (node + osMemboxNodeHeadSize) = node := by
  rw [osMemboxNodeAddr, if_neg (Nat.not_lt.mpr (Nat.le_add_left _ _)), Nat.add_sub_cancel]

/-- The boxes of all blocks. -/
def boxes (config : Config) (boxInfo : MemboxInfo) : List Nat :=
  (List.range boxInfo.uwBlkNum).map fun index => boxInfo.block config index + osMemboxNodeHeadSize

variable {box : Nat}

theorem mem_boxes : box ∈ boxInfo.boxes config ↔
    ∃ index < boxInfo.uwBlkNum, box = boxInfo.block config index + osMemboxNodeHeadSize := by
  simp only [boxes, mem_map, mem_range]
  exact exists_congr fun index => and_congr_right fun _ => eq_comm

theorem Fits.boxes_nodup (fits : boxInfo.Fits config) : (boxInfo.boxes config).Nodup := by
  refine nodup_range.map (f := fun index => boxInfo.block config index + _)
    fun first second same => ?_
  exact fits.block_inj (Nat.add_right_cancel same)

theorem length_boxes : (boxInfo.boxes config).length = boxInfo.uwBlkNum := by
  rw [boxes, length_map, length_range]

theorem Fits.box_lt (fits : boxInfo.Fits config) {box : Nat}
    (member : box ∈ boxInfo.boxes config) : 0 < box ∧ box < 2 ^ 32 := by
  obtain ⟨index, low, rfl⟩ := mem_boxes.mp member
  have size := fits.size
  have space := fits.space
  have reach := @block_le config boxInfo index low
  rw [osMemboxNodeHeadSize]
  omega

/-- `LOS_MemboxFree` succeeds on the box of a block that has the magic word. -/
theorem Fits.losMemboxFree_eq_true_iff (fits : boxInfo.Fits config) {box : Nat}
    (low : box < 2 ^ 32) : (boxInfo.losMemboxFree config box).2 = true ↔
      box ∈ boxInfo.boxes config ∧
        osMemBoxCheckMagic config (boxInfo.pstNext (osMemboxNodeAddr box)) = true := by
  have node : osMemboxNodeAddr box < 2 ^ 32 := by
    rw [osMemboxNodeAddr]
    split
    · omega
    · exact Nat.lt_of_le_of_lt (Nat.sub_le _ _) low
  have checks := fits.osCheckBoxMem_iff node
  rw [losMemboxFree]
  constructor
  · intro freed
    split at freed
    · exact absurd freed (by simp)
    split at freed
    · exact absurd freed (by simp)
    rename_i checked
    rw [Bool.not_eq_true', Bool.not_eq_false] at checked
    obtain ⟨⟨index, inside, same⟩, magic⟩ := checks.mp checked
    refine ⟨mem_boxes.mpr ⟨index, inside, ?_⟩, magic⟩
    have reach := @block_le config boxInfo index inside
    have space := fits.space
    have size := fits.size
    rw [← same] at reach ⊢
    rw [osMemboxNodeAddr] at reach ⊢
    split at reach
    · rw [osMemboxNodeHeadSize] at reach
      omega
    · rename_i high
      rw [if_neg high, Nat.sub_add_cancel (Nat.not_lt.mp high)]
  · rintro ⟨member, magic⟩
    obtain ⟨index, inside, rfl⟩ := mem_boxes.mp member
    rw [checks.mpr ⟨⟨index, inside, osMemboxNodeAddr_add⟩, magic⟩]
    rfl

theorem losMemboxFree_of_true (freed : (boxInfo.losMemboxFree config box).2 = true) :
    boxInfo.losMemboxFree config box =
      ({ boxInfo with
          stFreeList := osMemboxNodeAddr box
          pstNext := update boxInfo.pstNext (osMemboxNodeAddr box) boxInfo.stFreeList
          uwBlkCnt := decrement boxInfo.uwBlkCnt }, true) := by
  rw [losMemboxFree] at freed ⊢
  split at freed
  · exact absurd freed (by simp)
  rename_i some
  split at freed
  · exact absurd freed (by simp)
  · rename_i checked
    rw [if_neg some, if_neg checked]

theorem losMemboxFree_fst (failed : (boxInfo.losMemboxFree config box).2 = false) :
    boxInfo.losMemboxFree config box = (boxInfo, false) := by
  rw [losMemboxFree] at failed ⊢
  split
  · rfl
  split
  · rfl
  · rename_i real checked
    rw [if_neg real, if_neg checked] at failed
    exact absurd failed (by simp)

/-! ### The accounts of a pool -/

/-- No link of a free block looks like the magic word: there is one block, or no block starts at
an address that does. -/
def Clear (config : Config) (boxInfo : MemboxInfo) : Prop :=
  boxInfo.uwBlkNum = 1 ∨
    ∀ index < boxInfo.uwBlkNum, osMemBoxCheckMagic config (boxInfo.block config index) = false

/-- Every block of the pool is in the free list or handed out, once. -/
structure Accounts (config : Config) (boxInfo : MemboxInfo) (free outstanding : List Nat) : Prop
    where
  fits : boxInfo.Fits config
  threads : Threads (pointer ∘ boxInfo.pstNext) (pointer boxInfo.stFreeList) free
  split : (free.map (· + osMemboxNodeHeadSize) ++ outstanding).Perm (boxInfo.boxes config)
  count : boxInfo.uwBlkCnt = outstanding.length

variable {free outstanding : List Nat}

theorem pointer_eq_some {word other : Nat} (found : pointer word = some other) : word = other := by
  rw [pointer] at found
  split at found
  · exact absurd found nofun
  · exact Option.some.inj found

section

variable (accounts : boxInfo.Accounts config free outstanding)
include accounts

theorem Accounts.mem_boxes
    (member : node ∈ free) : node + osMemboxNodeHeadSize ∈ boxInfo.boxes config :=
  accounts.split.mem_iff.mp
    (mem_append_left _ (mem_map_of_mem (f := (· + osMemboxNodeHeadSize)) member))

theorem Accounts.block_of_free
    (member : node ∈ free) : ∃ index < boxInfo.uwBlkNum, node = boxInfo.block config index := by
  obtain ⟨index, low, same⟩ := MemboxInfo.mem_boxes.mp (accounts.mem_boxes member)
  exact ⟨index, low, Nat.add_right_cancel same⟩

theorem Accounts.length : free.length + boxInfo.uwBlkCnt = boxInfo.uwBlkNum := by
  have lengths := accounts.split.length_eq
  rw [length_append, length_map, length_boxes] at lengths
  rw [accounts.count, lengths]

theorem Accounts.nodup : (free.map (· + osMemboxNodeHeadSize) ++ outstanding).Nodup :=
  accounts.split.nodup_iff.mpr accounts.fits.boxes_nodup

theorem Accounts.clear (clear : boxInfo.Clear config) (member : node ∈ free) :
    osMemBoxCheckMagic config (boxInfo.pstNext node) = false := by
  obtain ⟨front, back, rfl, tail⟩ := accounts.threads.rest member
  cases back with
  | nil =>
    have last : boxInfo.pstNext node = 0 := by
      have none : pointer (boxInfo.pstNext node) = none := tail
      rw [pointer] at none
      split at none
      · assumption
      · exact absurd none nofun
    rw [last, osMemBoxCheckMagic, Nat.zero_mod, if_neg (Nat.not_lt_zero _)]
    decide
  | cons other rest =>
    have next : boxInfo.pstNext node = other := pointer_eq_some tail.1
    have follows : other ∈ front ++ node :: other :: rest := by simp
    obtain ⟨index, low, same⟩ := accounts.block_of_free follows
    rcases clear with single | clear
    · have many := accounts.length
      simp only [length_append, length_cons] at many
      omega
    · rw [next, same]
      exact clear index low

end

theorem Fits.congr {next : MemboxInfo} (fits : boxInfo.Fits config)
    (pool : next.pool = boxInfo.pool) (size : next.uwBlkSize = boxInfo.uwBlkSize)
    (num : next.uwBlkNum = boxInfo.uwBlkNum) : next.Fits config := by
  refine ⟨pool ▸ fits.real, size ▸ fits.size, ?_⟩
  rw [block, blocks, pool, size, num]
  exact fits.space

theorem boxes_congr {next : MemboxInfo} (pool : next.pool = boxInfo.pool)
    (size : next.uwBlkSize = boxInfo.uwBlkSize) (num : next.uwBlkNum = boxInfo.uwBlkNum) :
    next.boxes config = boxInfo.boxes config := by
  simp only [boxes, block, blocks, pool, size, num]

theorem Accounts.alloc (accounts : boxInfo.Accounts config free outstanding) (curTaskID : Nat)
    (some : boxInfo.stFreeList ≠ 0) : ∃ rest, free = boxInfo.stFreeList :: rest ∧
      (boxInfo.losMemboxAlloc curTaskID).1.Accounts config rest
        ((boxInfo.losMemboxAlloc curTaskID).2 :: outstanding) := by
  have first : pointer boxInfo.stFreeList = Option.some boxInfo.stFreeList := if_neg some
  have threads := accounts.threads
  rw [first] at threads
  have taken : boxInfo.losMemboxAlloc curTaskID = ({ boxInfo with
          stFreeList := boxInfo.pstNext boxInfo.stFreeList
          pstNext := update boxInfo.pstNext boxInfo.stFreeList (osMemboxMagic ||| curTaskID % 2 ^ 8)
          uwBlkCnt := (boxInfo.uwBlkCnt + 1) % 2 ^ 32 },
        boxInfo.stFreeList + osMemboxNodeHeadSize) := if_pos some
  have same : ∀ other, other ≠ boxInfo.stFreeList →
      (pointer ∘ (boxInfo.losMemboxAlloc curTaskID).1.pstNext) other =
        (pointer ∘ boxInfo.pstNext) other := by
    intro other differs
    rw [taken]
    exact congrArg pointer (update_of_ne differs _ _)
  obtain ⟨rest, rfl, tail⟩ := threads.pop same
  refine ⟨rest, rfl, ?_⟩
  rw [taken] at tail ⊢
  refine ⟨accounts.fits.congr rfl rfl rfl, tail, ?_, ?_⟩
  · refine List.Perm.trans perm_middle
      (accounts.split.trans (.of_eq (@boxes_congr config boxInfo _ rfl rfl rfl).symm))
  · have many := accounts.length
    have low := accounts.fits.blkNum_lt
    simp only [length_cons] at many
    rw [length_cons, ← accounts.count, Nat.mod_eq_of_lt (by omega)]

theorem Accounts.release (accounts : boxInfo.Accounts config free outstanding)
    (clear : boxInfo.Clear config) {box : Nat} (low : box < 2 ^ 32)
    (freed : (boxInfo.losMemboxFree config box).2 = true) :
    box ∈ outstanding ∧ (boxInfo.losMemboxFree config box).1.Accounts config
      (osMemboxNodeAddr box :: free) (outstanding.erase box) := by
  obtain ⟨member, magic⟩ := (accounts.fits.losMemboxFree_eq_true_iff low).mp freed
  obtain ⟨index, inside, same⟩ := MemboxInfo.mem_boxes.mp member
  have node : osMemboxNodeAddr box = boxInfo.block config index := by
    rw [same]
    exact osMemboxNodeAddr_add
  have back : osMemboxNodeAddr box + osMemboxNodeHeadSize = box := by rw [node, same]
  have fresh : osMemboxNodeAddr box ∉ free := fun old =>
    absurd ((accounts.clear clear old).symm.trans magic) (by simp)
  have handed : box ∈ outstanding := by
    rcases mem_append.mp (accounts.split.mem_iff.mpr member) with old | handed
    · obtain ⟨other, old, its⟩ := mem_map.mp old
      exact absurd (Nat.add_right_cancel (its.trans back.symm) ▸ old) fresh
    · exact handed
  refine ⟨handed, ?_⟩
  rw [losMemboxFree_of_true freed]
  generalize osMemboxNodeAddr box = address at *
  refine ⟨accounts.fits.congr rfl rfl rfl, ?_, ?_, ?_⟩
  · have first : pointer address = some address := by
      rw [pointer, if_neg]
      rw [node]
      exact Nat.ne_of_gt accounts.fits.block_pos
    rw [first]
    refine accounts.threads.push fresh ?_ fun other differs => ?_
    · exact congrArg pointer (update_self _ _ _)
    · exact congrArg pointer (update_of_ne differs _ _)
  · refine List.Perm.trans ?_
      (accounts.split.trans (.of_eq (@boxes_congr config boxInfo _ rfl rfl rfl).symm))
    rw [map_cons, back]
    exact perm_middle.symm.trans (List.Perm.append_left _ (perm_cons_erase handed).symm)
  · have some : 0 < boxInfo.uwBlkCnt := by
      rw [accounts.count]
      exact length_pos_of_mem handed
    rw [decrement, if_neg (Nat.ne_of_gt some), length_erase_of_mem handed, accounts.count]

theorem threads_linkNodes (blkSize : Nat) (size : 0 < blkSize) (count node : Nat)
    (pstNext : Nat → Nat) (real : 0 < node) (space : node + count * blkSize < 2 ^ 32) :
    Threads (pointer ∘ linkNodes blkSize count node pstNext) (some node)
        ((List.range (count + 1)).map fun index => node + index * blkSize) ∧
      ∀ other < node, linkNodes blkSize count node pstNext other = pstNext other := by
  induction count generalizing node pstNext with
  | zero =>
    refine ⟨⟨by simp, ?_⟩, fun other below => update_of_ne (Nat.ne_of_lt below) _ _⟩
    show pointer (update pstNext _ 0 _) = none
    simp [pointer]
  | succ count hypothesis =>
    have step : (node + blkSize) % 2 ^ 32 = node + blkSize := by
      rw [Nat.succ_mul] at space
      exact Nat.mod_eq_of_lt (by omega)
    obtain ⟨tail, kept⟩ := hypothesis (node + blkSize)
      (update pstNext node (node + blkSize)) (by omega) (by
        rw [Nat.succ_mul] at space
        omega)
    have own : linkNodes blkSize (count + 1) node pstNext node = node + blkSize := by
      rw [linkNodes, step, kept node (by omega), update_self]
    have same : linkNodes blkSize (count + 1) node pstNext =
        linkNodes blkSize count (node + blkSize)
          (update pstNext node (node + blkSize)) := by
      rw [linkNodes, step]
    refine ⟨?_, fun other below => ?_⟩
    · rw [range_succ_eq_map, map_cons, map_map]
      refine ⟨by simp, ?_⟩
      have link : (pointer ∘ linkNodes blkSize (count + 1) node pstNext) (node + 0 * blkSize) =
          some (node + blkSize) := by
        rw [Function.comp_apply, Nat.zero_mul, show node + 0 = node from rfl, own, pointer,
          if_neg (by omega)]
      rw [link, same]
      have shifted : ((fun index => node + index * blkSize) ∘ Nat.succ) =
          fun index => node + blkSize + index * blkSize := by
        funext index
        rw [Function.comp_apply, Nat.succ_mul]
        omega
      rw [shifted]
      exact tail
    · rw [same, kept other (by omega), update_of_ne (by omega)]

/-- A pool that `LOS_MemboxInit` accepts without a wrap of the block size or of the pool. -/
structure Accepted (config : Config) (pstNext : Nat → Nat) (pool poolSize blkSize : Nat)
    (boxInfo : MemboxInfo) : Prop where
  init : losMemboxInit config pstNext pool poolSize blkSize = some boxInfo
  size : blkSize + 7 < 2 ^ 32
  space : pool + poolSize ≤ 2 ^ 32

theorem Accepted.accounts {pstNext : Nat → Nat} {pool poolSize blkSize : Nat}
    (accepted : Accepted config pstNext pool poolSize blkSize boxInfo) :
    boxInfo.Accounts config ((List.range boxInfo.uwBlkNum).map (boxInfo.block config)) [] ∧
      boxInfo.block config boxInfo.uwBlkNum ≤ boxInfo.pool + poolSize ∧ boxInfo.pool = pool := by
  obtain ⟨init, size, space⟩ := accepted
  rw [losMemboxInit] at init
  split at init
  · exact absurd init nofun
  rename_i real
  split at init
  · exact absurd init nofun
  split at init
  · exact absurd init nofun
  dsimp only at init
  split at init
  · exact absurd init nofun
  rename_i many
  obtain rfl := Option.some.inj init
  have big : 8 ≤ losMemboxAligned ((blkSize + osMemboxNodeHeadSize) % 2 ^ 32) := by
    rw [losMemboxAligned, osMemboxNodeHeadSize]
    omega
  generalize losMemboxAligned ((blkSize + osMemboxNodeHeadSize) % 2 ^ 32) = unit at *
  have whole := Nat.div_mul_le_self (poolSize - config.infoSize) unit
  generalize (poolSize - config.infoSize) / unit = number at *
  have reach : pool + config.infoSize + number * unit ≤ pool + poolSize := by omega
  refine ⟨⟨⟨Nat.pos_of_ne_zero real, big, Nat.le_trans reach space⟩, ?_, ?_, rfl⟩, reach,
    rfl⟩
  · obtain ⟨count, rfl⟩ := Nat.exists_eq_succ_of_ne_zero many
    have threads := (threads_linkNodes unit (by omega) count (pool + config.infoSize)
      pstNext (by omega) (by
        rw [Nat.succ_mul] at reach
        omega)).1
    show Threads _ (pointer (pool + config.infoSize)) _
    rw [pointer, if_neg (by omega)]
    exact threads
  · rw [append_nil, map_map]
    exact List.Perm.refl _

end MemboxInfo

/-! ### The promise -/

open MemboxInfo

variable {config : Config}

variable {boxInfo : MemboxInfo} {free : List Nat} {poolSize : Nat}

theorem MemboxInfo.Accounts.inOrder {outstanding : List Nat}
    (accounts : boxInfo.Accounts config free outstanding)
    (clear : boxInfo.Clear config)
    (reach : boxInfo.block config boxInfo.uwBlkNum ≤ boxInfo.pool + poolSize) :
    InOrder config poolSize ⟨boxInfo, outstanding⟩ where
  free := by
    refine ⟨free, accounts.threads, accounts.threads.nodup, fun node member => ?_,
      accounts.length⟩
    obtain ⟨index, low, rfl⟩ := accounts.block_of_free member
    exact ⟨Nat.le_add_right _ _, Nat.le_trans (block_le low) reach⟩
  once := accounts.nodup.of_append_right
  fresh curTaskID := by
    by_cases some : boxInfo.stFreeList = 0
    · have none : boxInfo.losMemboxAlloc curTaskID = (boxInfo, 0) := if_neg (not_not.mpr some)
      rw [none]
      intro member
      have real := accounts.fits.box_lt (accounts.split.mem_iff.mp (mem_append_right _ member))
      omega
    · obtain ⟨rest, -, next⟩ := accounts.alloc curTaskID some
      exact (nodup_cons.mp next.nodup.of_append_right).1
  guarded box low fresh := by
    refine losMemboxFree_fst ?_
    by_contra freed
    rw [Bool.not_eq_false] at freed
    exact fresh (accounts.release clear low freed).1

theorem MemboxInfo.losMemboxFree_frame (boxInfo : MemboxInfo) (box : Nat) :
    (boxInfo.losMemboxFree config box).1.pool = boxInfo.pool ∧
      (boxInfo.losMemboxFree config box).1.uwBlkSize = boxInfo.uwBlkSize ∧
      (boxInfo.losMemboxFree config box).1.uwBlkNum = boxInfo.uwBlkNum := by
  rw [losMemboxFree]
  split
  · exact ⟨rfl, rfl, rfl⟩
  · split <;> exact ⟨rfl, rfl, rfl⟩

variable {state : State}

theorem accounts_step {next : State} {action : Action}
    (accounts : state.boxInfo.Accounts config free state.outstanding)
    (clear : state.boxInfo.Clear config) (result : step config state action = some next) :
    (∃ free, next.boxInfo.Accounts config free next.outstanding) ∧
      next.boxInfo.pool = state.boxInfo.pool ∧ next.boxInfo.uwBlkSize = state.boxInfo.uwBlkSize ∧
      next.boxInfo.uwBlkNum = state.boxInfo.uwBlkNum := by
  cases action with
  | alloc curTaskID =>
    obtain rfl := Option.some.inj result
    by_cases some : state.boxInfo.stFreeList = 0
    · have none : state.boxInfo.losMemboxAlloc curTaskID = (state.boxInfo, 0) :=
        if_neg (not_not.mpr some)
      rw [none]
      exact ⟨⟨free, accounts⟩, rfl, rfl, rfl⟩
    · obtain ⟨rest, -, kept⟩ := accounts.alloc curTaskID some
      have box : (state.boxInfo.losMemboxAlloc curTaskID).2 ≠ 0 :=
        Nat.ne_of_gt (kept.fits.box_lt (kept.split.mem_iff.mp
          (mem_append_right _ mem_cons_self))).1
      rw [if_neg box]
      refine ⟨⟨rest, kept⟩, ?_⟩
      rw [losMemboxAlloc, if_pos some]
      exact ⟨rfl, rfl, rfl⟩
  | free box =>
    rw [step] at result
    split at result
    · rename_i low
      obtain rfl := Option.some.inj result
      cases freed : (state.boxInfo.losMemboxFree config box).2 with
      | false =>
        rw [losMemboxFree_fst freed]
        exact ⟨⟨free, accounts⟩, rfl, rfl, rfl⟩
      | true =>
        obtain ⟨-, kept⟩ := accounts.release clear low freed
        exact ⟨⟨_, kept⟩, losMemboxFree_frame _ _⟩
    · exact absurd result nofun

/-- In every state of every run of `LOS_MemboxAlloc` and `LOS_MemboxFree` on an accepted pool whose
links are clear, the blocks are in order. -/
theorem inOrder_of_clear {pstNext : Nat → Nat} {pool blkSize : Nat}
    (accepted : Accepted config pstNext pool poolSize blkSize boxInfo)
    (clear : boxInfo.Clear config) {state : State}
    (reached : Reachable (step config) (fun _ _ => True) (· = ⟨boxInfo, []⟩) state) :
    InOrder config poolSize state := by
  obtain ⟨accounts, reach, -⟩ := accepted.accounts
  let holds : State → Prop := fun state =>
    (∃ free, state.boxInfo.Accounts config free state.outstanding) ∧
      state.boxInfo.pool = boxInfo.pool ∧ state.boxInfo.uwBlkSize = boxInfo.uwBlkSize ∧
        state.boxInfo.uwBlkNum = boxInfo.uwBlkNum
  have kept : ∀ state, holds state → state.boxInfo.Clear config := by
    rintro state ⟨-, pool, size, num⟩
    simp only [Clear, block, blocks, pool, size, num]
    exact clear
  have held : holds state := by
    refine reached.invariant (fun state initial => ?_) fun before action next _ held _ result => ?_
    · subst initial
      exact ⟨⟨_, accounts⟩, rfl, rfl, rfl⟩
    · obtain ⟨next, pool', size', num'⟩ := accounts_step held.1.choose_spec (kept _ held) result
      exact ⟨next, pool'.trans held.2.1, size'.trans held.2.2.1, num'.trans held.2.2.2⟩
  refine held.1.choose_spec.inOrder (kept state held) ?_
  simp only [block, blocks, held.2.1, held.2.2.1, held.2.2.2]
  exact reach

theorem not_inOrder {index : Nat} (fits : state.boxInfo.Fits config)
    (low : index < state.boxInfo.uwBlkNum)
    (absent : state.boxInfo.block config index + osMemboxNodeHeadSize ∉ state.outstanding)
    (magic : osMemBoxCheckMagic config
      (state.boxInfo.pstNext (state.boxInfo.block config index)) = true) :
    ¬InOrder config poolSize state := by
  intro order
  have member : state.boxInfo.block config index + osMemboxNodeHeadSize ∈
      state.boxInfo.boxes config := mem_boxes.mpr ⟨index, low, rfl⟩
  have real := (fits.box_lt member).2
  have freed := (fits.losMemboxFree_eq_true_iff real).mpr ⟨member, by
    rw [osMemboxNodeAddr_add]
    exact magic⟩
  rw [order.guarded _ real absent] at freed
  exact absurd freed (by simp)

theorem osMemBoxCheckMagic_zero : osMemBoxCheckMagic config (osMemboxMagic ||| 0 % 2 ^ 8) = true := by
  rw [osMemBoxCheckMagic, if_neg]
  · decide
  · exact Nat.not_lt.mpr (Nat.le_trans (by decide) (Nat.zero_le _))

/-- Two pools with the same blocks. -/
structure MemboxInfo.Same (boxInfo next : MemboxInfo) : Prop where
  pool : next.pool = boxInfo.pool
  size : next.uwBlkSize = boxInfo.uwBlkSize
  num : next.uwBlkNum = boxInfo.uwBlkNum

theorem MemboxInfo.Same.trans {middle next : MemboxInfo} (first : boxInfo.Same middle)
    (second : middle.Same next) : boxInfo.Same next :=
  ⟨second.pool.trans first.pool, second.size.trans first.size, second.num.trans first.num⟩

theorem MemboxInfo.Same.block {next : MemboxInfo} (same : boxInfo.Same next)
    (index : Nat) : next.block config index = boxInfo.block config index := by
  simp only [MemboxInfo.block, blocks, same.pool, same.size]

theorem step_alloc (state : State) (curTaskID : Nat) (some : state.boxInfo.stFreeList ≠ 0) :
    ∃ next, step config state (.alloc curTaskID) = Option.some next ∧
      state.boxInfo.Same next.boxInfo ∧
      next.boxInfo.stFreeList = state.boxInfo.pstNext state.boxInfo.stFreeList ∧
      next.boxInfo.pstNext = update state.boxInfo.pstNext state.boxInfo.stFreeList
        (osMemboxMagic ||| curTaskID % 2 ^ 8) ∧
      next.outstanding =
        (state.boxInfo.stFreeList + osMemboxNodeHeadSize) :: state.outstanding := by
  have box : state.boxInfo.stFreeList + osMemboxNodeHeadSize ≠ 0 := Nat.succ_ne_zero _
  rw [step, losMemboxAlloc, if_pos some]
  refine ⟨_, rfl, ⟨rfl, rfl, rfl⟩, rfl, rfl, ?_⟩
  rw [if_neg box]

theorem step_free {node index : Nat} (fits : state.boxInfo.Fits config)
    (low : index < state.boxInfo.uwBlkNum) (block : state.boxInfo.block config index = node)
    (magic : osMemBoxCheckMagic config (state.boxInfo.pstNext node) = true) :
    ∃ next, step config state (.free (node + osMemboxNodeHeadSize)) = some next ∧
      state.boxInfo.Same next.boxInfo ∧ next.boxInfo.stFreeList = node ∧
      next.boxInfo.pstNext = update state.boxInfo.pstNext node state.boxInfo.stFreeList ∧
      next.outstanding = state.outstanding.erase (node + osMemboxNodeHeadSize) := by
  subst block
  have member : state.boxInfo.block config index + osMemboxNodeHeadSize ∈
      state.boxInfo.boxes config := mem_boxes.mpr ⟨index, low, rfl⟩
  have real := (fits.box_lt member).2
  have freed := (fits.losMemboxFree_eq_true_iff real).mpr ⟨member, by
    rw [osMemboxNodeAddr_add]
    exact magic⟩
  rw [step, if_pos real, losMemboxFree_of_true freed, osMemboxNodeAddr_add]
  exact ⟨_, rfl, ⟨rfl, rfl, rfl⟩, rfl, rfl, rfl⟩

/-- Task 0 takes the first two blocks of a fresh pool and gives them back in this order: then the
second block is linked to the first one. -/
theorem reachable_linked (many : 1 < boxInfo.uwBlkNum) (fits : boxInfo.Fits config)
    (threads : Threads (pointer ∘ boxInfo.pstNext) (pointer boxInfo.stFreeList)
      (boxInfo.block config 0 :: boxInfo.block config 1 :: free)) :
    ∃ state, Reachable (step config) (fun _ _ => True) (· = ⟨boxInfo, []⟩) state ∧
      state.outstanding = [] ∧ boxInfo.Same state.boxInfo ∧
      state.boxInfo.pstNext (boxInfo.block config 1) = boxInfo.block config 0 := by
  have apart : boxInfo.block config 0 ≠ boxInfo.block config 1 :=
    fun same => absurd (fits.block_inj same) (by decide)
  have first : boxInfo.stFreeList = boxInfo.block config 0 := pointer_eq_some threads.1
  have second : boxInfo.pstNext (boxInfo.block config 0) = boxInfo.block config 1 :=
    pointer_eq_some threads.2.1
  obtain ⟨one, alloc, same, head, links, handed⟩ := @step_alloc config ⟨boxInfo, []⟩ 0 (by
    rw [first]
    exact Nat.ne_of_gt fits.block_pos)
  rw [first] at head links handed
  replace head := head.trans second
  obtain ⟨two, allocTwo, sameTwo, headTwo, linksTwo, handedTwo⟩ := @step_alloc config one 0 (by
    rw [head]
    exact Nat.ne_of_gt fits.block_pos)
  rw [head, links] at linksTwo
  rw [head, handed] at handedTwo
  replace sameTwo := same.trans sameTwo
  obtain ⟨three, free, sameThree, headThree, linksThree, handedThree⟩ := @step_free config two _ 0
    (fits.congr sameTwo.pool sameTwo.size sameTwo.num)
    (by rw [sameTwo.num]; exact Nat.lt_of_succ_lt many) (sameTwo.block 0) (by
      rw [linksTwo, update_of_ne apart, update_self]
      exact osMemBoxCheckMagic_zero)
  rw [linksTwo] at linksThree
  replace sameThree := sameTwo.trans sameThree
  obtain ⟨four, freeTwo, sameFour, -, linksFour, handedFour⟩ := @step_free config three _ 1
    (fits.congr sameThree.pool sameThree.size sameThree.num) (by rw [sameThree.num]; exact many)
    (sameThree.block 1)
    (by
      rw [linksThree, update_of_ne apart.symm, update_self]
      exact osMemBoxCheckMagic_zero)
  refine ⟨four, .step (.step (.step (.step (.start rfl) trivial alloc) trivial allocTwo) trivial free)
    trivial freeTwo, ?_, sameThree.trans sameFour, ?_⟩
  · rw [handedFour, handedThree, handedTwo]
    simp [apart.symm]
  · rw [linksFour, update_self, headThree]

/-- The blocks of an accepted pool are in order in every state of every run of `LOS_MemboxAlloc` and
`LOS_MemboxFree` if and only if its links are clear. -/
theorem membox_in_order_iff {pstNext : Nat → Nat} {pool poolSize blkSize : Nat}
    {boxInfo : MemboxInfo} (accepted : Accepted config pstNext pool poolSize blkSize boxInfo) :
    (∀ state, Reachable (step config) (fun _ _ => True) (· = ⟨boxInfo, []⟩) state →
      InOrder config poolSize state) ↔ boxInfo.Clear config := by
  refine ⟨fun order => ?_, fun clear state reached => inOrder_of_clear accepted clear reached⟩
  obtain ⟨accounts, -, -⟩ := accepted.accounts
  by_contra unclear
  rw [Clear, not_or] at unclear
  obtain ⟨many, unclear⟩ := unclear
  simp only [not_forall, Bool.not_eq_false] at unclear
  obtain ⟨index, low, magic⟩ := unclear
  cases index with
  | succ index =>
    refine not_inOrder accounts.fits (Nat.lt_of_succ_lt low) (by simp) ?_
      (order ⟨boxInfo, []⟩ (.start rfl))
    have link := @Threads.link_eq _ _ _ (boxInfo.block config index) _ accounts.threads index
      (by simp [Nat.lt_of_succ_lt low])
    rw [List.getElem?_map, List.getElem?_range low] at link
    rw [pointer_eq_some link]
    exact magic
  | zero =>
    obtain ⟨count, num⟩ : ∃ count, boxInfo.uwBlkNum = count + 1 + 1 := ⟨boxInfo.uwBlkNum - 2, by omega⟩
    have threads := accounts.threads
    rw [num, List.range_succ_eq_map, List.range_succ_eq_map] at threads
    obtain ⟨state, reached, none, same, linked⟩ := reachable_linked (by omega) accounts.fits threads
    refine @not_inOrder _ _ _ 1 (accounts.fits.congr same.pool same.size same.num)
      (by rw [same.num]; omega) (by simp [none]) ?_ (order state reached)
    rw [same.block, linked]
    exact magic

def sampleConfig : Config := ⟨false, 5⟩

/-- A pool of three blocks of 16 bytes. -/
def samplePool (pool : Nat) : MemboxInfo where
  pool := pool
  uwBlkSize := 16
  uwBlkNum := 3
  uwBlkCnt := 0
  stFreeList := pool + 16
  pstNext := linkNodes 16 2 (pool + 16) fun _ => 0

theorem accepted_samplePool {pool : Nat} (real : pool ≠ 0) (space : pool + 64 ≤ 2 ^ 32) :
    Accepted sampleConfig (fun _ => 0) pool 64 12 (samplePool pool) :=
  ⟨if_neg real, by decide, space⟩

theorem membox_in_order_iff_sample : (samplePool 4096).Clear sampleConfig ∧
    ∃ state, execute (step sampleConfig) (fun _ _ => true) ⟨samplePool 4096, []⟩
      [.alloc 1, .alloc 2, .free 4116, .free 4116, .alloc 3] = some state ∧
      state.outstanding = [4116, 4132] ∧ InOrder sampleConfig 64 state := by
  have clear : (samplePool 4096).Clear sampleConfig := .inr (by decide)
  have order := (membox_in_order_iff (accepted_samplePool (by decide) (by decide))).mpr clear
  have runs : (execute (step sampleConfig) (fun _ _ => true) ⟨samplePool 4096, []⟩
      [.alloc 1, .alloc 2, .free 4116, .free 4116, .alloc 3]).map State.outstanding =
        some [4116, 4132] := by decide
  obtain ⟨state, result, outstanding⟩ := Option.map_eq_some_iff.mp runs
  exact ⟨clear, state, result, outstanding, order state
    (.of_execute (fun _ _ _ => trivial) _ (.start rfl) result)⟩

/-- The second block of this pool starts at the address of the magic word, so the first block can
be freed although it was never handed out. -/
theorem membox_out_of_order :
    Accepted sampleConfig (fun _ => 0) 0xa55a59e0 64 12 (samplePool 0xa55a59e0) ∧
      ¬∀ state, Reachable (step sampleConfig) (fun _ _ => True)
        (· = ⟨samplePool 0xa55a59e0, []⟩) state → InOrder sampleConfig 64 state := by
  refine ⟨accepted_samplePool (by decide) (by decide), fun order => ?_⟩
  have guarded := (order _ (.start rfl)).guarded 0xa55a59f4 (by decide) (by simp)
  exact absurd (congrArg Prod.snd guarded) (by decide)

/-! ### Sizes -/

section Sizes

variable {config : Config} {pool poolSize blkSize : Nat}

/-- What `LOS_MemboxInit` divides by, when it comes to the division. -/
def divisor (config : Config) (pool poolSize blkSize : Nat) : Option Nat :=
  if pool = 0 then none
  else if blkSize = 0 then none
  else if poolSize < config.infoSize then none
  else some (losMemboxAligned ((blkSize + osMemboxNodeHeadSize) % 2 ^ 32))

/-- The blocks of a pool are in it, apart from each other, and each has the bytes asked for behind
its link. -/
structure Offers (config : Config) (poolSize blkSize : Nat) (boxInfo : MemboxInfo) : Prop where
  size : blkSize + osMemboxNodeHeadSize ≤ boxInfo.uwBlkSize
  inside : ∀ index < boxInfo.uwBlkNum, boxInfo.pool ≤ boxInfo.block config index ∧
    boxInfo.block config index + boxInfo.uwBlkSize ≤ boxInfo.pool + poolSize
  apart : ∀ index < boxInfo.uwBlkNum, ∀ other < boxInfo.uwBlkNum, index ≠ other →
    boxInfo.block config index + boxInfo.uwBlkSize ≤ boxInfo.block config other ∨
      boxInfo.block config other + boxInfo.uwBlkSize ≤ boxInfo.block config index

/-- What `LOS_MemboxInit` promises of its sizes. -/
structure SizesRight (config : Config) (pool poolSize blkSize : Nat) : Prop where
  divides : divisor config pool poolSize blkSize ≠ some 0
  offers : ∀ pstNext boxInfo, losMemboxInit config pstNext pool poolSize blkSize = some boxInfo →
    Offers config poolSize blkSize boxInfo

/-- The size of a block with its link and the rounding can be represented; or the arguments are
refused, before the division, or after it when not even the four bytes to which the largest sizes
wrap are left. -/
def SizeRepresentable (config : Config) (pool poolSize blkSize : Nat) : Prop :=
  pool = 0 ∨ blkSize = 0 ∨ poolSize < config.infoSize ∨ blkSize + 7 < 2 ^ 32 ∨
    2 ^ 32 ≤ blkSize + 3 ∧ poolSize < config.infoSize + 4

theorem of_losMemboxInit {pstNext : Nat → Nat} {boxInfo : MemboxInfo}
    (accepted : losMemboxInit config pstNext pool poolSize blkSize = some boxInfo) :
    divisor config pool poolSize blkSize = some boxInfo.uwBlkSize ∧ boxInfo.pool = pool ∧
      config.infoSize ≤ poolSize ∧
      boxInfo.uwBlkNum = (poolSize - config.infoSize) / boxInfo.uwBlkSize ∧
      boxInfo.uwBlkNum ≠ 0 := by
  rw [losMemboxInit] at accepted
  rw [divisor]
  split at accepted
  · cases accepted
  split at accepted
  · cases accepted
  split at accepted
  · cases accepted
  rename_i real some room
  simp only at accepted
  split at accepted
  · cases accepted
  · rename_i num
    cases accepted
    exact ⟨by rw [if_neg real, if_neg some, if_neg room], rfl, Nat.not_lt.mp room, rfl, num⟩

theorem offers_of_size {boxInfo : MemboxInfo} (room : config.infoSize ≤ poolSize)
    (num : boxInfo.uwBlkNum = (poolSize - config.infoSize) / boxInfo.uwBlkSize)
    (size : blkSize + osMemboxNodeHeadSize ≤ boxInfo.uwBlkSize) :
    Offers config poolSize blkSize boxInfo where
  size := size
  inside index low := by
    have last := @MemboxInfo.block_le config boxInfo _ low
    have fill := Nat.div_mul_le_self (poolSize - config.infoSize) boxInfo.uwBlkSize
    rw [← num] at fill
    rw [MemboxInfo.block, MemboxInfo.blocks] at last ⊢
    rw [MemboxInfo.block, MemboxInfo.blocks] at last
    omega
  apart index _ other _ differs := by
    rcases Nat.lt_or_gt_of_ne differs with before | behind
    · refine .inl ?_
      rw [← MemboxInfo.block_succ]
      exact Nat.add_le_add_left (Nat.mul_le_mul_right _ before) _
    · refine .inr ?_
      rw [← MemboxInfo.block_succ]
      exact Nat.add_le_add_left (Nat.mul_le_mul_right _ behind) _

/-- `LOS_MemboxInit` keeps its promise exactly when the size of a block can be represented. -/
theorem sizesRight_iff (fits : blkSize < 2 ^ 32) : SizesRight config pool poolSize blkSize ↔
      SizeRepresentable config pool poolSize blkSize := by
  rw [SizeRepresentable]
  by_cases refused : pool = 0 ∨ blkSize = 0 ∨ poolSize < config.infoSize
  · have none : divisor config pool poolSize blkSize = none := by
      rw [divisor]
      split
      · rfl
      · split
        · rfl
        · rw [if_pos (by tauto)]
    refine iff_of_true ⟨by rw [none]; nofun, fun pstNext boxInfo accepted => ?_⟩ (by tauto)
    exact absurd ((of_losMemboxInit accepted).1.symm.trans none) nofun
  · obtain ⟨real, some, room⟩ : pool ≠ 0 ∧ blkSize ≠ 0 ∧ ¬poolSize < config.infoSize := by tauto
    have divides : divisor config pool poolSize blkSize =
        Option.some (losMemboxAligned ((blkSize + osMemboxNodeHeadSize) % 2 ^ 32)) := by
      rw [divisor, if_neg real, if_neg some, if_neg room]
    have aligned : losMemboxAligned ((blkSize + osMemboxNodeHeadSize) % 2 ^ 32) =
        ((blkSize + 4) % 2 ^ 32 + 3) % 2 ^ 32 / 4 * 4 := rfl
    constructor
    · intro right
      have nonzero : losMemboxAligned ((blkSize + osMemboxNodeHeadSize) % 2 ^ 32) ≠ 0 :=
        fun zero => right.divides (divides.trans (congrArg _ zero))
      by_cases small : blkSize + 7 < 2 ^ 32
      · exact .inr (.inr (.inr (.inl small)))
      have four : losMemboxAligned ((blkSize + osMemboxNodeHeadSize) % 2 ^ 32) = 4 := by omega
      by_contra large
      have num : (poolSize - config.infoSize) / 4 ≠ 0 := by omega
      have size := (right.offers (fun _ => 0) _ (by
        rw [losMemboxInit, if_neg real, if_neg some, if_neg room, four]
        exact if_neg num)).size
      exact absurd size (by simp [osMemboxNodeHeadSize, some])
    · intro representable
      refine ⟨?_, fun pstNext boxInfo accepted => ?_⟩
      · rw [divides]
        intro zero
        have zero := Option.some.inj zero
        omega
      · obtain ⟨size, -, large, num, counted⟩ := of_losMemboxInit accepted
        have size := Option.some.inj (divides.symm.trans size)
        have enough : blkSize + osMemboxNodeHeadSize ≤ boxInfo.uwBlkSize := by
          rw [num, ← size] at counted
          have head : osMemboxNodeHeadSize = 4 := rfl
          by_cases small : blkSize + 7 < 2 ^ 32
          · omega
          · have four : losMemboxAligned ((blkSize + osMemboxNodeHeadSize) % 2 ^ 32) = 4 := by omega
            rw [four] at counted
            omega
        exact offers_of_size large num enough

theorem sizesRight_iff_sample : SizeRepresentable sampleConfig 4096 64 12 ∧
    SizesRight sampleConfig 4096 64 12 :=
  have representable : SizeRepresentable sampleConfig 4096 64 12 :=
    .inr (.inr (.inr (.inl (by decide))))
  ⟨representable, (sizesRight_iff (by decide)).mpr representable⟩

/-- The size of a block wraps to zero, by which `LOS_MemboxInit` then divides. -/
theorem size_wraps_to_zero : ¬∀ config pool poolSize blkSize, pool < 2 ^ 32 → poolSize < 2 ^ 32 →
    blkSize < 2 ^ 32 → SizesRight config pool poolSize blkSize :=
  fun all => (all sampleConfig 4096 64 0xFFFFFFFC (by decide) (by decide) (by decide)).divides rfl

/-- Sizes that wrap to one word give blocks without a byte for the user. -/
example : (losMemboxInit sampleConfig (fun _ => 0) 4096 64 0xFFFFFFFF).map
    (fun boxInfo => (boxInfo.uwBlkSize, boxInfo.uwBlkNum)) = some (4, 12) := by decide

end Sizes

end TowerSafe.Membox
