/-
This file proves what the free-list primitives of the allocator do to the segregated free
lists: adding a node puts it in front of the list of its class, deleting a node takes it out of
the list it is in, and the bitmap keeps telling which lists are not empty. The nodes are only
assumed to be apart, so that the two links of one node never are words of another one.
-/

import TowerSafe.Library.LinkedList
import TowerSafe.Library.Tiling
import TowerSafe.Memory.SizeClass

namespace TowerSafe.Memory

open Library List BitVec
open Function (update update_self update_of_ne)

/-! ### The bitmap -/

/-- Bit `index` of `freeListBitmap`. -/
def freeListBit (heap : Heap) (index : Nat) : Bool :=
  (heap.freeListBitmap (index >>> 5)).getLsbD (index &&& 0x1f)

theorem index_and (index : Nat) : index &&& 0x1f = index % 32 :=
  Nat.and_two_pow_sub_one_eq_mod index 5

theorem index_shift (index : Nat) : index >>> 5 = index / 32 := Nat.shiftRight_eq_div_pow index 5

theorem getLsbD_singleBit {position : Nat} (bound : position < 32) (index : Nat) :
    (1#32 <<< position).getLsbD index = decide (index = position) := by
  have value : (1#32 <<< position).toNat = 2 ^ position := by
    rw [toNat_shiftLeft, toNat_ofNat, Nat.shiftLeft_eq]
    have power : 2 ^ position < 2 ^ 32 := Nat.pow_lt_pow_right (by decide) bound
    omega
  rw [BitVec.getLsbD, value, Nat.testBit_two_pow]
  exact decide_eq_decide.mpr eq_comm

theorem freeListBit_setFreeListBit (heap : Heap) (index other : Nat) :
    freeListBit (osMemSetFreeListBit heap index) other =
      (freeListBit heap other || decide (other = index)) := by
  have bound : index % 32 < 32 := Nat.mod_lt _ (by decide)
  unfold freeListBit osMemSetFreeListBit
  simp only [index_and, index_shift, Function.update_apply]
  by_cases sameWord : other / 32 = index / 32
  · have sameBit : decide (other % 32 = index % 32) = decide (other = index) :=
      decide_eq_decide.mpr (by omega)
    rw [if_pos sameWord, getLsbD_or, getLsbD_singleBit bound, sameBit, ← sameWord]
  · rw [if_neg sameWord, decide_eq_false (by omega), Bool.or_false]

theorem freeListBit_clearFreeListBit (heap : Heap) (index other : Nat) :
    freeListBit (osMemClearFreeListBit heap index) other =
      (freeListBit heap other && !decide (other = index)) := by
  have bound : index % 32 < 32 := Nat.mod_lt _ (by decide)
  have otherBound : other % 32 < 32 := Nat.mod_lt _ (by decide)
  unfold freeListBit osMemClearFreeListBit
  simp only [index_and, index_shift, Function.update_apply]
  by_cases sameWord : other / 32 = index / 32
  · have sameBit : decide (other % 32 = index % 32) = decide (other = index) :=
      decide_eq_decide.mpr (by omega)
    rw [if_pos sameWord, getLsbD_and, getLsbD_not, getLsbD_singleBit bound, sameBit,
      decide_eq_true otherBound, Bool.true_and, ← sameWord]
  · rw [if_neg sameWord, decide_eq_false (by omega), Bool.not_false, Bool.and_true]

/-! ### The lists -/

/-- The nodes of every free list, in order. Two listed nodes are apart by a free node head, so
no node is in two lists, and a list's bit tells whether it has a node. -/
structure FreeLists (heap : Heap) (listed : Nat → List Nat) : Prop where
  linked : ∀ index < osMemFreeListCount,
    Listed heap.prev heap.next 0 (heap.freeList index) (listed index)
  bitmap : ∀ index ≤ osMemFreeListCount,
    freeListBit heap index = true ↔ index < osMemFreeListCount ∧ listed index ≠ []
  apart : ∀ first < osMemFreeListCount, ∀ second < osMemFreeListCount,
    ∀ node ∈ listed first, ∀ other ∈ listed second,
      node = other ∧ first = second ∨ Apart node osMemMinLeftSize other osMemMinLeftSize

def LinkOf (nodes : List Nat) (address : Nat) : Prop :=
  ∃ node ∈ nodes, address = node + 8 ∨ address = node + 12

namespace FreeLists

variable {heap heap' : Heap} {listed : Nat → List Nat} {index node : Nat}

section

variable (lists : FreeLists heap listed)
include lists

theorem congr (sameHeads : heap'.freeList = heap.freeList)
    (sameBitmap : heap'.freeListBitmap = heap.freeListBitmap)
    (sameLinks : ∀ index < osMemFreeListCount, ∀ address, LinkOf (listed index) address →
      heap'.memory address = heap.memory address) : FreeLists heap' listed where
  linked := fun index bound => by
    rw [sameHeads]
    exact (lists.linked index bound).congr
      (fun node member => sameLinks index bound _ ⟨node, member, .inl rfl⟩)
      fun node member => sameLinks index bound _ ⟨node, member, .inr rfl⟩
  bitmap := fun index bound => by
    unfold freeListBit
    rw [sameBitmap]
    exact lists.bitmap index bound
  apart := lists.apart

theorem first_eq_zero_iff (bound : index < osMemFreeListCount) :
    heap.freeList index = 0 ↔ listed index = [] :=
  (lists.linked index bound).first_eq_null_iff

theorem first_mem (bound : index < osMemFreeListCount)
    (found : freeListBit heap index = true) : heap.freeList index ∈ listed index := by
  refine (lists.linked index bound).first_mem fun zero => ?_
  exact ((lists.bitmap index (Nat.le_of_lt bound)).mp found).2
    ((lists.first_eq_zero_iff bound).mp zero)

theorem apart_of_ne {first second other : Nat}
    (firstBound : first < osMemFreeListCount) (secondBound : second < osMemFreeListCount)
    (member : node ∈ listed first) (otherMember : other ∈ listed second) (differ : other ≠ node) :
    node + 16 ≤ other ∨ other + 16 ≤ node := by
  rcases lists.apart first firstBound second secondBound node member other otherMember with
    ⟨same, -⟩ | apart
  · exact absurd same.symm differ
  · exact apart

/-! ### Deleting a node -/

theorem delete_effect (bound : index < osMemFreeListCount) (member : node ∈ listed index) :
    (heap.prev node ≠ 0 →
      (osMemListDelete heap index node).next (heap.prev node) = heap.next node) ∧
    (heap.next node ≠ 0 →
      (osMemListDelete heap index node).prev (heap.next node) = heap.prev node) ∧
    (∀ address, (heap.prev node ≠ 0 → address ≠ heap.prev node + 12) →
      (heap.next node ≠ 0 → address ≠ heap.next node + 8) →
      (osMemListDelete heap index node).memory address = heap.memory address) ∧
    (osMemListDelete heap index node).freeList = update heap.freeList index
        (if node = heap.freeList index then heap.next node else heap.freeList index) ∧
    (∀ other, freeListBit (osMemListDelete heap index node) other = (freeListBit heap other &&
        !decide (other = index ∧ node = heap.freeList index ∧ heap.next node = 0))) := by
  have linked := lists.linked index bound
  have firstIff := linked.prev_eq_null_iff member
  by_cases first : node = heap.freeList index
  · have noPrev : heap.prev node = 0 := firstIff.mpr first
    by_cases last : heap.next node = 0
    · have result : osMemListDelete heap index node =
          osMemClearFreeListBit (heap.setFreeList index (heap.next node)) index := by
        unfold osMemListDelete
        rw [if_pos first]
        exact if_pos last
      rw [result]
      refine ⟨fun real => absurd noPrev real, fun real => absurd last real, fun _ _ _ => rfl,
        ?_, fun other => ?_⟩
      · rw [if_pos first]
        rfl
      · rw [freeListBit_clearFreeListBit]
        simp only [first.symm, last, and_true]
        rfl
    · have result : osMemListDelete heap index node =
          (heap.setFreeList index (heap.next node)).setPrev (heap.next node) 0 := by
        unfold osMemListDelete
        rw [if_pos first]
        exact if_neg last
      rw [result]
      refine ⟨fun real => absurd noPrev real, fun _ => ?_, fun address _ away => ?_, ?_,
        fun other => ?_⟩
      · rw [noPrev]
        exact update_self _ _ _
      · exact update_of_ne (away last) _ _
      · rw [if_pos first]
        rfl
      · simp only [last, and_false, decide_false, Bool.not_false, Bool.and_true]
        rfl
  · have real : heap.prev node ≠ 0 := fun zero => first (firstIff.mp zero)
    obtain ⟨prevMember, prevDiffers⟩ := linked.prev_mem member real
    have prevApart := lists.apart_of_ne bound bound member prevMember prevDiffers
    let skipped := heap.setNext (heap.prev node) (heap.next node)
    have sameNext : skipped.next node = heap.next node :=
      update_of_ne (show node + 12 ≠ heap.prev node + 12 by omega) _ _
    have samePrev : skipped.prev node = heap.prev node :=
      update_of_ne (show node + 8 ≠ heap.prev node + 12 by omega) _ _
    have nextNode : skipped.next (heap.prev node) = heap.next node := update_self _ _ _
    have headSame : update heap.freeList index (heap.freeList index) = heap.freeList :=
      Function.update_eq_self _ _
    by_cases last : heap.next node = 0
    · have result : osMemListDelete heap index node = skipped := by
        unfold osMemListDelete
        rw [if_neg first]
        exact if_neg (not_not.mpr (sameNext.trans last))
      rw [result]
      refine ⟨fun _ => nextNode, fun nonzero => absurd last nonzero, fun address away _ => ?_, ?_,
        fun other => ?_⟩
      · exact update_of_ne (away real) _ _
      · rw [if_neg first, headSame]
        rfl
      · simp only [first, false_and, and_false, decide_false, Bool.not_false, Bool.and_true]
        rfl
    · have result : osMemListDelete heap index node =
          skipped.setPrev (heap.next node) (heap.prev node) := by
        unfold osMemListDelete
        rw [if_neg first]
        refine (if_pos (fun zero => last (sameNext.symm.trans zero))).trans ?_
        rw [sameNext, samePrev]
      obtain ⟨nextMember, nextDiffers⟩ := linked.next_mem member last
      have nextApart : heap.prev node + 12 ≠ heap.next node + 8 := by
        by_cases same : heap.next node = heap.prev node
        · omega
        · have apart := lists.apart_of_ne bound bound prevMember nextMember same
          omega
      rw [result]
      refine ⟨fun _ => ?_, fun _ => update_self _ _ _, fun address away awayBack => ?_, ?_,
        fun other => ?_⟩
      · exact (update_of_ne nextApart _ _).trans nextNode
      · exact (update_of_ne (awayBack last) _ _).trans (update_of_ne (away real) _ _)
      · rw [if_neg first, headSame]
        rfl
      · simp only [first, false_and, and_false, decide_false, Bool.not_false, Bool.and_true]
        rfl

theorem delete (bound : index < osMemFreeListCount) (member : node ∈ listed index) :
    FreeLists (osMemListDelete heap index node)
      (update listed index ((listed index).erase node)) := by
  have linked := lists.linked index bound
  obtain ⟨skipForth, skipBack, frame, heads, bits⟩ := lists.delete_effect bound member
  have within : ∀ first, ∀ other ∈ update listed index ((listed index).erase node) first,
      other ∈ listed first := fun first other old => by
    by_cases same : first = index
    · subst same
      rw [update_self] at old
      exact mem_of_mem_erase old
    · rwa [update_of_ne same] at old
  have removed : Listed (osMemListDelete heap index node).prev
      (osMemListDelete heap index node).next 0
      (if node = heap.freeList index then heap.next node else heap.freeList index)
      ((listed index).erase node) := by
    refine linked.remove member skipForth skipBack (fun other old away => ?_)
      fun other old away => ?_
    · refine frame _ (fun real => ?_) fun _ same => away (Nat.add_right_cancel same)
      by_cases same : other = heap.prev node
      · omega
      · have apart := lists.apart_of_ne bound bound (linked.prev_mem member real).1 old same
        omega
    · refine frame _ (fun _ same => away (Nat.add_right_cancel same)) fun real => ?_
      by_cases same : other = heap.next node
      · omega
      · have apart := lists.apart_of_ne bound bound (linked.next_mem member real).1 old same
        omega
  refine ⟨fun first firstBound => ?_, fun first firstBound => ?_,
    fun first firstBound second secondBound x xMember y yMember => ?_⟩
  · by_cases same : first = index
    · rw [same, heads, update_self, update_self]
      exact removed
    rw [heads, update_of_ne same, update_of_ne same]
    have elsewhere : ∀ other ∈ listed first, ∀ linkNode, linkNode ∈ listed index →
        other + 16 ≤ linkNode ∨ linkNode + 16 ≤ other := fun other old linkNode old' => by
      rcases lists.apart first firstBound index bound other old linkNode old' with
        ⟨-, equal⟩ | apart
      · exact absurd equal same
      · exact apart
    refine (lists.linked first firstBound).congr (fun other old => ?_) fun other old => ?_
    · refine frame _ (fun real => ?_) fun real => ?_
      · have apart := elsewhere other old _ (linked.prev_mem member real).1
        omega
      · have apart := elsewhere other old _ (linked.next_mem member real).1
        omega
    · refine frame _ (fun real => ?_) fun real => ?_
      · have apart := elsewhere other old _ (linked.prev_mem member real).1
        omega
      · have apart := elsewhere other old _ (linked.next_mem member real).1
        omega
  · rw [bits, Bool.and_eq_true, lists.bitmap first firstBound, Bool.not_eq_true',
      decide_eq_false_iff_not]
    by_cases same : first = index
    · subst same
      have nonempty : listed first ≠ [] := ne_nil_of_mem member
      have empty := removed.first_eq_null_iff
      rw [update_self]
      constructor
      · rintro ⟨⟨less, -⟩, kept⟩
        refine ⟨less, fun nil => kept ⟨rfl, ?_⟩⟩
        have null := empty.mpr nil
        by_cases isFirst : node = heap.freeList first
        · rw [if_pos isFirst] at null
          exact ⟨isFirst, null⟩
        · rw [if_neg isFirst] at null
          exact absurd ((lists.first_eq_zero_iff bound).mp null) nonempty
      · rintro ⟨less, rest⟩
        refine ⟨⟨less, nonempty⟩, fun ⟨_, isFirst, last⟩ => rest (empty.mp ?_)⟩
        rw [if_pos isFirst, last]
    · rw [update_of_ne same]
      exact ⟨fun ⟨kept, _⟩ => kept, fun kept => ⟨kept, fun ⟨equal, _⟩ => same equal⟩⟩
  · exact lists.apart first firstBound second secondBound x (within first x xMember) y
      (within second y yMember)

theorem delete_frame (bound : index < osMemFreeListCount)
    (member : node ∈ listed index) {address : Nat}
    (away : ¬LinkOf ((listed index).erase node) address) :
    (osMemListDelete heap index node).memory address = heap.memory address := by
  have linked := lists.linked index bound
  obtain ⟨-, -, frame, -, -⟩ := lists.delete_effect bound member
  refine frame address (fun real same => ?_) fun real same => ?_
  · obtain ⟨prevMember, differ⟩ := linked.prev_mem member real
    exact away ⟨_, (mem_erase_of_ne differ).mpr prevMember, .inr same⟩
  · obtain ⟨nextMember, differ⟩ := linked.next_mem member real
    exact away ⟨_, (mem_erase_of_ne differ).mpr nextMember, .inl same⟩

end

/-! ### Adding a node -/

/-- What `OsMemListAdd` writes: the links of the new node, the back link of the old first one,
and the head and the bit of the list. -/
theorem add_effect (apart : heap.freeList index ≠ 0 → heap.freeList index + 16 ≤ node ∨
      node + 16 ≤ heap.freeList index) : (osMemListAdd heap index node).prev node = 0 ∧
    (osMemListAdd heap index node).next node = heap.freeList index ∧
    (heap.freeList index ≠ 0 →
      (osMemListAdd heap index node).prev (heap.freeList index) = node) ∧
    (∀ address, address ≠ node + 8 → address ≠ node + 12 →
      (heap.freeList index ≠ 0 → address ≠ heap.freeList index + 8) →
      (osMemListAdd heap index node).memory address = heap.memory address) ∧
    (osMemListAdd heap index node).freeList = update heap.freeList index node ∧
    (∀ other, freeListBit (osMemListAdd heap index node) other =
      (freeListBit heap other || decide (other = index))) := by
  let entered := if heap.freeList index ≠ 0 then heap.setPrev (heap.freeList index) node else heap
  have sameHeads : entered.freeList = heap.freeList := by
    unfold entered
    split <;> rfl
  have sameBitmap : entered.freeListBitmap = heap.freeListBitmap := by
    unfold entered
    split <;> rfl
  have memory : (osMemListAdd heap index node).memory =
      update (update entered.memory (node + 8) 0) (node + 12) (heap.freeList index) := rfl
  have differ : node + 8 ≠ node + 12 := by omega
  refine ⟨?_, ?_, fun real => ?_, fun address notPrev notNext notFirst => ?_, ?_, fun other => ?_⟩
  · show (osMemListAdd heap index node).memory (node + 8) = 0
    rw [memory, update_of_ne differ, update_self]
  · show (osMemListAdd heap index node).memory (node + 12) = heap.freeList index
    rw [memory, update_self]
  · have away := apart real
    show (osMemListAdd heap index node).memory (heap.freeList index + 8) = node
    rw [memory, update_of_ne (by omega), update_of_ne (by omega)]
    unfold entered
    rw [if_pos real]
    exact update_self _ _ _
  · rw [memory, update_of_ne notNext, update_of_ne notPrev]
    unfold entered
    split
    · rename_i real
      exact update_of_ne (notFirst real) _ _
    · rfl
  · show update entered.freeList index node = _
    rw [sameHeads]
  · unfold osMemListAdd
    rw [freeListBit_setFreeListBit]
    refine congrArg (fun flag => flag || decide (other = index)) ?_
    show (entered.freeListBitmap _).getLsbD _ = (heap.freeListBitmap _).getLsbD _
    rw [sameBitmap]

theorem add (lists : FreeLists heap listed) (bound : index < osMemFreeListCount) (real : node ≠ 0)
    (fresh : ∀ first < osMemFreeListCount, ∀ other ∈ listed first,
      Apart node osMemMinLeftSize other osMemMinLeftSize) : FreeLists (osMemListAdd heap index node)
      (update listed index (node :: listed index)) := by
  have linked := lists.linked index bound
  have firstApart : heap.freeList index ≠ 0 → heap.freeList index + 16 ≤ node ∨
      node + 16 ≤ heap.freeList index := fun nonzero =>
    (fresh index bound _ (linked.first_mem nonzero)).symm
  have notMember : ∀ first < osMemFreeListCount, node ∉ listed first := fun first firstBound old => by
    rcases fresh first firstBound node old with before | after
    · exact absurd before (Nat.not_le.mpr (Nat.lt_add_of_pos_right (by decide)))
    · exact absurd after (Nat.not_le.mpr (Nat.lt_add_of_pos_right (by decide)))
  obtain ⟨back, forth, entered, frame, heads, bits⟩ := add_effect firstApart
  have apartOf : ∀ {first other}, first < osMemFreeListCount → other ∈ listed first →
      node + 16 ≤ other ∨ other + 16 ≤ node := fun firstBound old => fresh _ firstBound _ old
  refine ⟨fun first firstBound => ?_, fun first firstBound => ?_,
    fun first firstBound second secondBound x xMember y yMember => ?_⟩
  · by_cases same : first = index
    · rw [same, heads, update_self, update_self]
      refine linked.push (notMember index bound) real back forth entered
        (fun other old away => ?_) fun other old => ?_
      · have apart := apartOf bound old
        exact frame _ (by omega) (by omega) fun _ equal => away (Nat.add_right_cancel equal)
      · have apart := apartOf bound old
        refine frame _ (by omega) (by omega) fun nonzero => ?_
        by_cases equal : other = heap.freeList index
        · omega
        · have apart := lists.apart_of_ne bound bound (linked.first_mem nonzero) old equal
          omega
    · rw [heads, update_of_ne same, update_of_ne same]
      have elsewhere : ∀ other ∈ listed first, heap.freeList index ≠ 0 →
          other + 16 ≤ heap.freeList index ∨ heap.freeList index + 16 ≤ other :=
        fun other old nonzero => by
          rcases lists.apart first firstBound index bound other old _ (linked.first_mem nonzero)
            with ⟨-, equal⟩ | apart
          · exact absurd equal same
          · exact apart
      refine (lists.linked first firstBound).congr (fun other old => ?_) fun other old => ?_
      · have apart := apartOf firstBound old
        refine frame _ (by omega) (by omega) fun nonzero => ?_
        have apart := elsewhere other old nonzero
        omega
      · have apart := apartOf firstBound old
        refine frame _ (by omega) (by omega) fun nonzero => ?_
        have apart := elsewhere other old nonzero
        omega
  · rw [bits, Bool.or_eq_true, lists.bitmap first firstBound, decide_eq_true_iff]
    by_cases same : first = index
    · rw [same, update_self]
      exact iff_of_true (.inr rfl) ⟨bound, cons_ne_nil _ _⟩
    · rw [update_of_ne same]
      exact or_iff_left same
  · have cases : ∀ first, ∀ other ∈ update listed index (node :: listed index) first,
        other = node ∧ first = index ∨ other ∈ listed first := fun first other old => by
      by_cases same : first = index
      · rw [same, update_self] at old
        rw [same]
        exact (mem_cons.mp old).imp (fun equal => ⟨equal, rfl⟩) id
      · rw [update_of_ne same] at old
        exact .inr old
    rcases cases first x xMember with ⟨rfl, rfl⟩ | xOld
    · rcases cases second y yMember with ⟨rfl, rfl⟩ | yOld
      · exact .inl ⟨rfl, rfl⟩
      · exact .inr (fresh second secondBound y yOld)
    · rcases cases second y yMember with ⟨rfl, rfl⟩ | yOld
      · exact .inr (fresh first firstBound x xOld).symm
      · exact lists.apart first firstBound second secondBound x xOld y yOld

theorem add_frame (lists : FreeLists heap listed) (bound : index < osMemFreeListCount)
    (fresh : ∀ other ∈ listed index, Apart node osMemMinLeftSize other osMemMinLeftSize)
    {address : Nat} (away : ¬LinkOf (node :: listed index) address) :
    (osMemListAdd heap index node).memory address = heap.memory address := by
  have linked := lists.linked index bound
  obtain ⟨-, -, -, frame, -, -⟩ := @add_effect heap index node
    fun nonzero => (fresh _ (linked.first_mem nonzero)).symm
  refine frame address (fun same => ?_) (fun same => ?_) fun nonzero same => ?_
  · exact away ⟨node, mem_cons_self, .inl same⟩
  · exact away ⟨node, mem_cons_self, .inr same⟩
  · exact away ⟨_, mem_cons_of_mem _ (linked.first_mem nonzero), .inl same⟩

end FreeLists

/-! ### Searching -/

/-- `found` is the first set bit of the bitmap from `start` on. -/
def FirstBit (heap : Heap) (start found : Nat) : Prop :=
  start ≤ found ∧ freeListBit heap found = true ∧
    ∀ index, start ≤ index → index < found → freeListBit heap index = false

/-- The first non-empty list after the class of a request starts with a node that is large
enough. The allocator takes that node without comparing its size. -/
def ClassFits (heap : Heap) (request : Nat) : Prop :=
  ∀ index < osMemFreeListCount, FirstBit heap (osMemFreeListIndexGet request + 1) index →
    request ≤ heap.sizeAndFlag (heap.freeList index)

theorem lowMask (index : Nat) (small : index < 2 ^ 32) :
    index &&& (2 ^ 32 - 1 - 0x1f) = index / 32 * 32 :=
  @and_highMask index 5 small (by decide)

theorem osMemAlign_succ {index : Nat} (bound : index ≤ 223) :
    32 ∣ osMemAlign (index + 1) 32 ∧ osMemAlign (index + 1) 32 = (index / 32 + 1) * 32 := by
  have aligned : osMemAlign (index + 1) 32 = (index + 1 + 32 - 1) / 32 * 32 :=
    @osMemAlign_eq 5 (index + 1) (by decide) (by omega)
  omega

/-- The search inside one bitmap word. -/
theorem osMemNotEmptyIndexGet_spec {heap : Heap} {index : Nat} (bound : index ≤ osMemFreeListCount) :
    osMemNotEmptyIndexGet heap index = osMemFreeListCount ∧
        (∀ other, index ≤ other → other < (index / 32 + 1) * 32 → freeListBit heap other = false) ∨
      FirstBit heap index (osMemNotEmptyIndexGet heap index) ∧
        osMemNotEmptyIndexGet heap index ≤ osMemFreeListCount := by
  have small : index ≤ 223 := bound
  have position : index % 32 < 32 := Nat.mod_lt _ (by decide)
  let mask := heap.freeListBitmap (index >>> 5) &&& ~~~(1#32 <<< (index &&& 0x1f) - 1#32)
  have maskBit : ∀ place < 32, mask.getLsbD place =
      (freeListBit heap (index / 32 * 32 + place) && decide (index % 32 ≤ place)) := by
    intro place less
    unfold mask freeListBit
    rw [getLsbD_and, index_and, getLsbD_upperMask position, decide_eq_true less,
      Bool.true_and, index_shift, index_shift, index_and,
      show (index / 32 * 32 + place) / 32 = index / 32 by omega,
      show (index / 32 * 32 + place) % 32 = place by omega]
  have bitOf : ∀ other, index ≤ other → other < (index / 32 + 1) * 32 →
      freeListBit heap other = mask.getLsbD (other % 32) := by
    intro other lower upper
    rw [maskBit _ (Nat.mod_lt _ (by decide)), decide_eq_true (by omega), Bool.and_true,
      show index / 32 * 32 + other % 32 = other by omega]
  by_cases empty : mask = 0
  · refine .inl ⟨?_, fun other lower upper => ?_⟩
    · exact if_neg (not_not.mpr empty)
    · rw [bitOf other lower upper, empty]
      exact getLsbD_zero
  · have result : osMemNotEmptyIndexGet heap index = osMemFFS mask + index / 32 * 32 := by
      rw [← lowMask index (by omega)]
      exact if_pos empty
    obtain ⟨set, below⟩ := osMemFFS_spec empty
    have less := osMemFFS_lt empty
    rw [maskBit _ less, Bool.and_eq_true, decide_eq_true_iff] at set
    refine .inr ?_
    rw [result]
    refine ⟨⟨by omega, by rw [Nat.add_comm]; exact set.1, fun other lower upper => ?_⟩, ?_⟩
    · rw [bitOf other lower (by omega)]
      exact below _ (by omega)
    · show _ ≤ 223
      omega

/-- The search over the remaining bitmap words. -/
theorem osMemScanBitmap_spec {heap : Heap} {fuel index found : Nat} (aligned : 32 ∣ index)
    (result : osMemScanBitmap heap fuel index = some found) :
    FirstBit heap index found ∧ found ≤ osMemFreeListCount := by
  induction fuel generalizing index with
  | zero => exact absurd result (by simp [osMemScanBitmap])
  | succ fuel hypothesis =>
    unfold osMemScanBitmap at result
    have bitOf : ∀ other, index ≤ other → other < index + 32 →
        freeListBit heap other = (heap.freeListBitmap (index >>> 5)).getLsbD (other - index) := by
      intro other lower upper
      unfold freeListBit
      rw [index_and, index_shift, index_shift, show other / 32 = index / 32 by omega,
        show other % 32 = other - index by omega]
    by_cases inside : index < osMemFreeListCount
    · rw [if_pos inside] at result
      by_cases empty : heap.freeListBitmap (index >>> 5) = 0
      · rw [if_neg (not_not.mpr empty)] at result
        obtain ⟨⟨later, set, none⟩, last⟩ := hypothesis (by omega) result
        refine ⟨⟨by omega, set, fun other lower upper => ?_⟩, last⟩
        by_cases here : other < index + 32
        · rw [bitOf other lower here, empty]
          exact getLsbD_zero
        · exact none other (Nat.le_of_not_lt here) upper
      · rw [if_pos empty] at result
        obtain rfl := Option.some.inj result
        obtain ⟨set, below⟩ := osMemFFS_spec empty
        have less := osMemFFS_lt empty
        have inside' : index < 223 := inside
        refine ⟨⟨Nat.le_add_left _ _, ?_, fun other lower upper => ?_⟩, ?_⟩
        · rw [bitOf _ (Nat.le_add_left _ _) (by omega), Nat.add_sub_cancel]
          exact set
        · rw [bitOf other lower (by omega)]
          exact below _ (by omega)
        · show _ ≤ 223
          omega
    · rw [if_neg inside] at result
      exact absurd result (by simp)

/-- The search inside one list compares the sizes. -/
theorem osMemFindCurSuitableBlock_spec {heap : Heap} {size fuel node before : Nat}
    {nodes : List Nat} (path : Path heap.prev heap.next before node nodes 0)
    (found : osMemFindCurSuitableBlock heap size fuel node ≠ 0) :
    osMemFindCurSuitableBlock heap size fuel node ∈ nodes ∧
      size ≤ heap.sizeAndFlag (osMemFindCurSuitableBlock heap size fuel node) := by
  induction fuel generalizing node before nodes with
  | zero => exact absurd rfl found
  | succ fuel hypothesis =>
    unfold osMemFindCurSuitableBlock at found ⊢
    by_cases null : node = 0
    · rw [if_pos null] at found
      exact absurd rfl found
    rw [if_neg null] at found ⊢
    cases nodes with
    | nil => exact absurd path null
    | cons head rest =>
      obtain ⟨rfl, -, tail⟩ := path
      by_cases large : heap.sizeAndFlag node ≥ size
      · rw [if_pos large]
        exact ⟨mem_cons_self, large⟩
      · rw [if_neg large] at found ⊢
        obtain ⟨member, enough⟩ := hypothesis tail found
        exact ⟨mem_cons_of_mem _ member, enough⟩

/-- The node the search finds is in the list it names. Either that is the class of the request
and the sizes were compared or are equal in a small class, or it is the first node of the first
non-empty list after it. -/
theorem osMemFindNextSuitableBlock_spec {heap : Heap} {listed : Nat → List Nat} {size : Nat}
    (lists : FreeLists heap listed) (class' : osMemFreeListIndexGet size < osMemFreeListCount)
    (found : (osMemFindNextSuitableBlock heap size).1 ≠ 0) :
    (osMemFindNextSuitableBlock heap size).2 < osMemFreeListCount ∧
      (osMemFindNextSuitableBlock heap size).1 ∈ listed (osMemFindNextSuitableBlock heap size).2 ∧
      ((osMemFindNextSuitableBlock heap size).2 = osMemFreeListIndexGet size ∧
          osMemFreeListIndexGet size < osMemSmallBucketCount ∨
        FirstBit heap (osMemFreeListIndexGet size + 1) (osMemFindNextSuitableBlock heap size).2 ∧
          (osMemFindNextSuitableBlock heap size).1 =
            heap.freeList (osMemFindNextSuitableBlock heap size).2 ∨
        (osMemFindNextSuitableBlock heap size).2 = osMemFreeListIndexGet size ∧
          size ≤ heap.sizeAndFlag (osMemFindNextSuitableBlock heap size).1) := by
  let fl := osMemFlGet size
  let curIndex := if fl < osMemSmallBucketCount then osMemFreeListCount
    else u32 (((fl - osMemSmallBucketCount) <<< osMemSli) + osMemSlGet size fl +
      osMemSmallBucketCount)
  let index := if fl < osMemSmallBucketCount then fl else curIndex + 1
  have large : ¬fl < osMemSmallBucketCount → curIndex = osMemFreeListIndexGet size :=
    fun notSmall => by
    unfold curIndex osMemFreeListIndexGet
    rw [if_neg notSmall, if_neg notSmall, Nat.add_comm, ← Nat.add_assoc]
  have small : fl < osMemSmallBucketCount → osMemFreeListIndexGet size = fl := fun isSmall => by
    unfold osMemFreeListIndexGet
    rw [if_pos isSmall]
  have start : fl < osMemSmallBucketCount ∧ index = osMemFreeListIndexGet size ∨
      index = osMemFreeListIndexGet size + 1 := by
    by_cases isSmall : fl < osMemSmallBucketCount
    · exact .inl ⟨isSmall, (if_pos isSmall).trans (small isSmall).symm⟩
    · exact .inr ((if_neg isSmall).trans (congrArg (· + 1) (large isSmall)))
  have indexBound : index ≤ 223 := by
    have less : osMemFreeListIndexGet size < 223 := class'
    omega
  have firstNode : ∀ {other}, FirstBit heap index other → other ≤ osMemFreeListCount →
      other < osMemFreeListCount ∧ heap.freeList other ∈ listed other ∧
        (other = osMemFreeListIndexGet size ∧ osMemFreeListIndexGet size < osMemSmallBucketCount ∨
          FirstBit heap (osMemFreeListIndexGet size + 1) other) := by
    rintro other ⟨lower, set, none⟩ le
    have less := ((lists.bitmap _ le).mp set).1
    refine ⟨less, lists.first_mem less set, ?_⟩
    rcases start with ⟨isSmall, same⟩ | same
    · by_cases equal : other = osMemFreeListIndexGet size
      · exact .inl ⟨equal, (small isSmall).trans_lt isSmall⟩
      · exact .inr ⟨by omega, set, fun index low high => none index (by omega) high⟩
    · rw [same] at lower none
      exact .inr ⟨lower, set, none⟩
  by_cases here : osMemNotEmptyIndexGet heap index ≠ osMemFreeListCount
  · have result : osMemFindNextSuitableBlock heap size =
        (heap.freeList (osMemNotEmptyIndexGet heap index), osMemNotEmptyIndexGet heap index) :=
      if_pos here
    rw [result]
    rcases @osMemNotEmptyIndexGet_spec heap _ indexBound with ⟨none, -⟩ | ⟨first, le⟩
    · exact absurd none here
    · obtain ⟨less, member, which⟩ := firstNode first le
      exact ⟨less, member, which.imp id fun first => .inl ⟨first, rfl⟩⟩
  · cases scan : osMemScanBitmap heap 7 (osMemAlign (index + 1) 32) with
    | some other =>
      have result : osMemFindNextSuitableBlock heap size = (heap.freeList other, other) := by
        refine (if_neg here).trans ?_
        rw [scan]
      obtain ⟨aligned, next⟩ := osMemAlign_succ indexBound
      obtain ⟨⟨lower, set, none⟩, le⟩ := osMemScanBitmap_spec aligned scan
      have first : FirstBit heap index other := by
        refine ⟨by omega, set, fun earlier low high => ?_⟩
        by_cases sameWord : earlier < (index / 32 + 1) * 32
        · rcases @osMemNotEmptyIndexGet_spec heap _ indexBound with
            ⟨-, empty⟩ | ⟨⟨-, occupied, -⟩, bound⟩
          · exact empty earlier low sameWord
          · rw [not_not.mp here] at occupied
            exact absurd ((lists.bitmap _ le_rfl).mp occupied).1 (lt_irrefl _)
        · exact none earlier (by omega) high
      obtain ⟨less, member, which⟩ := firstNode first le
      rw [result]
      exact ⟨less, member, which.imp id fun first => .inl ⟨first, rfl⟩⟩
    | none =>
      have result : osMemFindNextSuitableBlock heap size =
          if curIndex = osMemFreeListCount then (0, curIndex)
          else (osMemFindCurSuitableBlock heap size heap.totalSize (heap.freeList curIndex),
            curIndex) := by
        refine (if_neg here).trans ?_
        rw [scan]
      rw [result] at found ⊢
      by_cases isSmall : fl < osMemSmallBucketCount
      · have none : curIndex = osMemFreeListCount := if_pos isSmall
        rw [if_pos none] at found
        exact absurd rfl found
      have same := large isSmall
      have notLast : curIndex ≠ osMemFreeListCount := by
        rw [same]
        exact class'.ne
      rw [if_neg notLast] at found ⊢
      have bound : curIndex < osMemFreeListCount := by
        rw [same]
        exact class'
      obtain ⟨member, enough⟩ := osMemFindCurSuitableBlock_spec (lists.linked _ bound).path found
      exact ⟨bound, member, .inr (.inr ⟨same, enough⟩)⟩

end TowerSafe.Memory
