/-
This file is about who has the data of messages. The exchanges that are in a queue, in processing or
being sent carry buffers and reference words; the account is balanced when every reference word
counts the exchanges that carry it, exchanges with the same word carry the same buffers, and all
others carry different ones. Each move of a message keeps the account balanced, under a condition
that says what the move needs.
-/

import Mathlib.Data.Multiset.Count
import Mathlib.Data.Multiset.ZeroCons
import TowerSafe.Samgr.Message

namespace TowerSafe.Message

open List Option

variable {Handler : Type}

/-! ### Buffers -/

/-- The data of a request that `SAMGR_FreeMsg` frees. -/
def Request.buffers (request : Request) : List Nat :=
  if 0 < request.len then request.data.toList else []

/-- The data of a response that `SAMGR_FreeMsg` frees. -/
def Response.buffers (response : Response) : List Nat :=
  if 0 < response.len then response.data.toList else []

/-- The data that `SAMGR_FreeMsg` frees. -/
def Exchange.buffers (exchange : Exchange Handler) : List Nat :=
  exchange.request.buffers ++ exchange.response.buffers

theorem hasData_iff (exchange : Exchange Handler) :
    exchange.hasData = true ↔ exchange.buffers ≠ [] := by
  obtain ⟨id, ⟨msgId, len, data, msgValue⟩, ⟨responseData, responseLen⟩, type, handler, shared⟩ :=
    exchange
  simp only [Exchange.hasData, Request.hasData, Response.hasData, Exchange.buffers,
    Request.buffers, Response.buffers]
  cases data <;> cases responseData <;> simp <;> omega

/-- How many exchanges carry a reference word. -/
def refs (carriers : Multiset (Exchange Handler)) (word : Nat) : Nat :=
  carriers.countP fun exchange => exchange.sharedRef = some word

/-- Two exchanges carry the same word and the same buffers, or different buffers. -/
def Consistent (one other : Exchange Handler) : Prop :=
  (∃ word, one.sharedRef = some word ∧ other.sharedRef = some word ∧
    one.buffers = other.buffers) ∨
  ((∀ word, one.sharedRef = some word → other.sharedRef ≠ some word) ∧
    ∀ buffer ∈ one.buffers, buffer ∉ other.buffers)

def wordOf (count : Nat) : Option Nat :=
  if count = 0 then none else some count

/-- The heap was used as `malloc` and `free` are to be used. -/
structure Heap.Proper (heap : Heap) : Prop where
  once : heap.freed.Nodup
  freed : ∀ address ∈ heap.freed,
    heap.word address = none ∧ heap.data address = none ∧ address < heap.next
  fresh : ∀ address, heap.next ≤ address → heap.word address = none ∧ heap.data address = none
  apart : ∀ address, (heap.data address).isSome = true → heap.word address = none

/-- What was handed over is carried, or it was freed together with its word. -/
def Settled (heap : Heap) (carriers : Multiset (Exchange Handler)) (handed : Option Nat × Nat) :
    Prop :=
  (∃ exchange ∈ carriers, handed.2 ∈ exchange.buffers ∧
    ∀ word, handed.1 = some word → exchange.sharedRef = some word) ∨
  handed.2 ∈ heap.freed ∧ ∀ word, handed.1 = some word → word ∈ heap.freed

/-- The account of the exchanges that carry something. -/
structure Balanced (heap : Heap) (carriers : Multiset (Exchange Handler))
    (handed : List (Option Nat × Nat)) : Prop where
  proper : heap.Proper
  counted : ∀ word, heap.word word = wordOf (refs carriers word)
  allocated : ∀ exchange ∈ carriers, ∀ buffer ∈ exchange.buffers,
    (heap.data buffer).isSome = true
  nodup : ∀ exchange ∈ carriers, exchange.buffers.Nodup
  hasData : ∀ exchange ∈ carriers, exchange.sharedRef ≠ none → exchange.buffers ≠ []
  noResponse : ∀ exchange ∈ carriers, exchange.type = .msgCon → exchange.response = ⟨none, 0⟩
  consistent : ∀ exchange rest, carriers = exchange ::ₘ rest →
    ∀ other ∈ rest, Consistent exchange other
  settled : ∀ one ∈ handed, Settled heap carriers one

section Basics

variable {heap next : Heap} {carriers : Multiset (Exchange Handler)} {exchange : Exchange Handler}
  {handed : List (Option Nat × Nat)}

theorem refs_cons (exchange : Exchange Handler) (carriers : Multiset (Exchange Handler))
    (word : Nat) : refs (exchange ::ₘ carriers) word =
      refs carriers word + if exchange.sharedRef = some word then 1 else 0 :=
  Multiset.countP_cons _ _ _

theorem refs_pos_iff {word : Nat} :
    0 < refs carriers word ↔ ∃ exchange ∈ carriers, exchange.sharedRef = some word :=
  Multiset.countP_pos

theorem wordOf_eq_none {count : Nat} : wordOf count = none ↔ count = 0 := by
  rw [wordOf]
  split
  · next zero => exact iff_of_true rfl zero
  · next positive => exact iff_of_false (some_ne_none _) positive

theorem wordOf_succ (count : Nat) : wordOf (count + 1) = some (count + 1) :=
  if_neg (Nat.succ_ne_zero count)

theorem Consistent.symm {one other : Exchange Handler} (consistent : Consistent one other) :
    Consistent other one := by
  rcases consistent with ⟨word, first, second, same⟩ | ⟨apart, disjoint⟩
  · exact Or.inl ⟨word, second, first, same.symm⟩
  · exact Or.inr ⟨fun word second first => apart word first second,
      fun buffer here there => disjoint buffer there here⟩

theorem consistent_cons (first : ∀ other ∈ carriers, Consistent exchange other)
    (consistent : ∀ one rest, carriers = one ::ₘ rest → ∀ other ∈ rest, Consistent one other) :
    ∀ one rest, exchange ::ₘ carriers = one ::ₘ rest → ∀ other ∈ rest, Consistent one other := by
  intro one rest split other member
  rcases Multiset.cons_eq_cons.mp split with ⟨rfl, rfl⟩ | ⟨_, left, rfl, rfl⟩
  · exact first other member
  · rcases Multiset.mem_cons.mp member with rfl | member
    · exact (first one (Multiset.mem_cons_self one left)).symm
    · exact consistent one left rfl other member

theorem consistent_of_cons (consistent : ∀ one rest, exchange ::ₘ carriers = one ::ₘ rest →
      ∀ other ∈ rest, Consistent one other) :
    ∀ one rest, carriers = one ::ₘ rest → ∀ other ∈ rest, Consistent one other := by
  rintro one rest rfl other member
  exact consistent one (exchange ::ₘ rest) (Multiset.cons_swap exchange one rest) other
    (Multiset.mem_cons_of_mem member)

end Basics

/-! ### The heap -/

namespace Heap

variable (heap : Heap) (address other : Nat)

theorem mallocData_data (bytes : List (BitVec 8)) : (heap.mallocData bytes).2.data other =
      if other = heap.next then some bytes else heap.data other :=
  Function.update_apply _ _ _ _

theorem mallocWord_word (count : Nat) : (heap.mallocWord count).2.word other =
      if other = heap.next then some count else heap.word other :=
  Function.update_apply _ _ _ _

theorem modifyWord_word (change : Nat → Nat) : (heap.modifyWord address change).word other =
      if other = address then (heap.word address).map change else heap.word other :=
  Function.update_apply _ _ _ _

theorem free_word :
    (heap.free (some address)).word other = if other = address then none else heap.word other :=
  Function.update_apply _ _ _ _

theorem free_data :
    (heap.free (some address)).data other = if other = address then none else heap.data other :=
  Function.update_apply _ _ _ _

end Heap

namespace Heap.Proper

variable {heap : Heap} {address : Nat}

section

variable (proper : heap.Proper)
include proper

section

variable (there : (heap.word address).isSome = true ∨ (heap.data address).isSome = true)
include there

theorem lt_next :
    address < heap.next := by
  refine Nat.lt_of_not_le fun beyond => ?_
  obtain ⟨word, data⟩ := proper.fresh address beyond
  rw [word, data] at there
  exact there.elim Bool.false_ne_true Bool.false_ne_true

theorem not_freed :
    address ∉ heap.freed := by
  intro freed
  obtain ⟨word, data, _⟩ := proper.freed address freed
  rw [word, data] at there
  exact there.elim Bool.false_ne_true Bool.false_ne_true

end

theorem mallocData (bytes : List (BitVec 8)) :
    (heap.mallocData bytes).2.Proper := by
  refine ⟨proper.once, fun address freed => ?_, fun address beyond => ?_, fun address there => ?_⟩
  · obtain ⟨word, data, before⟩ := proper.freed address freed
    rw [mallocData_data, if_neg (Nat.ne_of_lt before)]
    exact ⟨word, data, Nat.lt_succ_of_lt before⟩
  · rw [mallocData_data, if_neg (Nat.ne_of_gt beyond)]
    exact proper.fresh address (Nat.le_of_succ_le beyond)
  · rw [mallocData_data] at there
    split at there
    · next same =>
      rw [same]
      exact (proper.fresh _ (Nat.le_refl _)).1
    · exact proper.apart address there

theorem mallocWord (count : Nat) : (heap.mallocWord count).2.Proper := by
  refine ⟨proper.once, fun address freed => ?_, fun address beyond => ?_, fun address there => ?_⟩
  · obtain ⟨word, data, before⟩ := proper.freed address freed
    rw [mallocWord_word, if_neg (Nat.ne_of_lt before)]
    exact ⟨word, data, Nat.lt_succ_of_lt before⟩
  · rw [mallocWord_word, if_neg (Nat.ne_of_gt beyond)]
    exact proper.fresh address (Nat.le_of_succ_le beyond)
  · rw [mallocWord_word, if_neg (Nat.ne_of_lt (proper.lt_next (Or.inr there)))]
    exact proper.apart address there

theorem modifyWord (word : Nat) (change : Nat → Nat) :
    (heap.modifyWord word change).Proper := by
  have still {address : Nat} (missing : heap.word address = none) :
      (heap.modifyWord word change).word address = none := by
    rw [modifyWord_word]
    split
    · next same => rw [← same, missing, map_none]
    · exact missing
  refine ⟨proper.once, fun address freed => ?_, fun address beyond => ?_, fun address there => ?_⟩
  · obtain ⟨word, data, before⟩ := proper.freed address freed
    exact ⟨still word, data, before⟩
  · obtain ⟨word, data⟩ := proper.fresh address beyond
    exact ⟨still word, data⟩
  · exact still (proper.apart address there)

theorem free
    (there : (heap.word address).isSome = true ∨ (heap.data address).isSome = true) :
    (heap.free (some address)).Proper := by
  refine ⟨nodup_cons.mpr ⟨proper.not_freed there, proper.once⟩, fun other freed => ?_,
    fun other beyond => ?_, fun other still => ?_⟩
  · rw [free_word, free_data]
    by_cases same : other = address
    · rw [if_pos same, if_pos same, same]
      exact ⟨rfl, rfl, proper.lt_next there⟩
    · rw [if_neg same, if_neg same]
      exact proper.freed other ((mem_cons.mp freed).resolve_left same)
  · have same : other ≠ address := Nat.ne_of_gt (Nat.lt_of_lt_of_le (proper.lt_next there) beyond)
    rw [free_word, free_data, if_neg same, if_neg same]
    exact proper.fresh other beyond
  · rw [free_word]
    rw [free_data] at still
    split at still
    · cases still
    · next same =>
      rw [if_neg same]
      exact proper.apart other still

end

end Heap.Proper

/-! ### Moves -/

namespace Balanced

variable {heap : Heap} {carriers : Multiset (Exchange Handler)} {exchange : Exchange Handler}
  {handed : List (Option Nat × Nat)}

section

variable (balanced : Balanced heap carriers handed)
include balanced

theorem word_isSome_iff {word : Nat} :
    (heap.word word).isSome = true ↔ ∃ exchange ∈ carriers, exchange.sharedRef = some word := by
  rw [← refs_pos_iff, balanced.counted, isSome_iff_ne_none, ne_eq, wordOf_eq_none,
    Nat.pos_iff_ne_zero]

theorem mallocData (bytes : List (BitVec 8)) :
    Balanced (heap.mallocData bytes).2 carriers handed := by
  refine ⟨balanced.proper.mallocData bytes, balanced.counted, fun one member buffer carried => ?_,
    balanced.nodup, balanced.hasData, balanced.noResponse, balanced.consistent, balanced.settled⟩
  have there := balanced.allocated one member buffer carried
  have before := balanced.proper.lt_next (Or.inr there)
  rwa [Heap.mallocData_data, if_neg (Nat.ne_of_lt before)]

theorem join_unshared
    (unshared : exchange.sharedRef = none)
    (allocated : ∀ buffer ∈ exchange.buffers, (heap.data buffer).isSome = true)
    (nodup : exchange.buffers.Nodup)
    (noResponse : exchange.type = .msgCon → exchange.response = ⟨none, 0⟩)
    (own : ∀ buffer ∈ exchange.buffers, ∀ other ∈ carriers, buffer ∉ other.buffers) :
    Balanced heap (exchange ::ₘ carriers) handed := by
  refine ⟨balanced.proper, fun word => ?_, ?_, ?_, ?_, ?_, consistent_cons ?_ balanced.consistent,
    fun one member => (balanced.settled one member).imp_left ?_⟩
  · rw [refs_cons, unshared, if_neg (some_ne_none word).symm, Nat.add_zero, balanced.counted]
  · exact Multiset.forall_mem_cons.mpr ⟨allocated, balanced.allocated⟩
  · exact Multiset.forall_mem_cons.mpr ⟨nodup, balanced.nodup⟩
  · exact Multiset.forall_mem_cons.mpr ⟨fun shared => absurd unshared shared, balanced.hasData⟩
  · exact Multiset.forall_mem_cons.mpr ⟨noResponse, balanced.noResponse⟩
  · refine fun other member => Or.inr ⟨fun word shared => ?_, fun buffer here =>
      own buffer here other member⟩
    exact absurd (unshared.symm.trans shared) (some_ne_none word).symm
  · rintro ⟨other, member, carried⟩
    exact ⟨other, Multiset.mem_cons_of_mem member, carried⟩

theorem join_shared {word : Nat}
    (shared : exchange.sharedRef = some word) (hasData : exchange.buffers ≠ [])
    (noResponse : exchange.type = .msgCon → exchange.response = ⟨none, 0⟩)
    {other : Exchange Handler} (member : other ∈ carriers) (same : other.sharedRef = some word)
    (equal : other.buffers = exchange.buffers) :
    Balanced (heap.modifyWord word (· + 1)) (exchange ::ₘ carriers) handed := by
  obtain ⟨rest, rfl⟩ := Multiset.exists_cons_of_mem member
  refine ⟨balanced.proper.modifyWord _ _, fun address => ?_, ?_, ?_, ?_, ?_,
    consistent_cons ?_ balanced.consistent,
    fun one member => (balanced.settled one member).imp_left ?_⟩
  · have before := balanced.counted address
    rw [refs_cons, shared, Heap.modifyWord_word]
    by_cases here : address = word
    · subst here
      have positive := refs_pos_iff.mpr ⟨other, member, same⟩
      rw [if_pos rfl, before, if_pos rfl, wordOf, if_neg (Nat.ne_of_gt positive)]
      rfl
    · rw [if_neg here, before, if_neg fun equal => here (some_inj.mp equal).symm, Nat.add_zero]
  · refine Multiset.forall_mem_cons.mpr ⟨?_, balanced.allocated⟩
    rw [← equal]
    exact balanced.allocated other member
  · refine Multiset.forall_mem_cons.mpr ⟨?_, balanced.nodup⟩
    rw [← equal]
    exact balanced.nodup other member
  · exact Multiset.forall_mem_cons.mpr ⟨fun _ => hasData, balanced.hasData⟩
  · exact Multiset.forall_mem_cons.mpr ⟨noResponse, balanced.noResponse⟩
  · refine Multiset.forall_mem_cons.mpr ⟨Or.inl ⟨word, shared, same, equal.symm⟩,
      fun third third_ => ?_⟩
    rcases balanced.consistent other rest rfl third third_ with
      ⟨other_, first, second, buffers⟩ | ⟨apart, disjoint⟩
    · obtain rfl := some_inj.mp (same.symm.trans first)
      exact Or.inl ⟨word, shared, second, equal.symm.trans buffers⟩
    · refine Or.inr ⟨fun address first => ?_, fun buffer here => disjoint buffer (equal ▸ here)⟩
      obtain rfl := some_inj.mp (shared.symm.trans first)
      exact apart word same
  · rintro ⟨third, member, carried⟩
    exact ⟨third, Multiset.mem_cons_of_mem member, carried⟩

end

theorem retag (balanced : Balanced heap (exchange ::ₘ carriers) handed)
    (unshared : exchange.sharedRef = none) (hasData : exchange.buffers ≠ []) :
    Balanced (heap.mallocWord 1).2
      ({ exchange with sharedRef := some heap.next } ::ₘ carriers) handed := by
  have unused (word : Nat) : refs (exchange ::ₘ carriers) word = refs carriers word := by
    rw [refs_cons, unshared, if_neg (some_ne_none word).symm, Nat.add_zero]
  have unknown : refs carriers heap.next = 0 := by
    rw [← unused, ← wordOf_eq_none, ← balanced.counted]
    exact (balanced.proper.fresh heap.next (Nat.le_refl _)).1
  refine ⟨balanced.proper.mallocWord 1, fun address => ?_, ?_, ?_, ?_, ?_,
    consistent_cons (fun other other_ => ?_) (consistent_of_cons balanced.consistent),
    fun one one_ => (balanced.settled one one_).imp_left ?_⟩
  · rw [refs_cons, Heap.mallocWord_word, balanced.counted, unused]
    by_cases here : address = heap.next
    · rw [if_pos here, here, unknown, if_pos rfl]
      rfl
    · rw [if_neg here, if_neg fun equal => here (some_inj.mp equal).symm, Nat.add_zero]
  · exact Multiset.forall_mem_cons.mpr (Multiset.forall_mem_cons.mp balanced.allocated)
  · exact Multiset.forall_mem_cons.mpr (Multiset.forall_mem_cons.mp balanced.nodup)
  · exact Multiset.forall_mem_cons.mpr
      ⟨fun _ => hasData, (Multiset.forall_mem_cons.mp balanced.hasData).2⟩
  · exact Multiset.forall_mem_cons.mpr (Multiset.forall_mem_cons.mp balanced.noResponse)
  · rcases balanced.consistent exchange carriers rfl other other_ with
      ⟨word, shared, _⟩ | ⟨_, disjoint⟩
    · exact absurd (unshared.symm.trans shared) (some_ne_none word).symm
    · refine Or.inr ⟨fun word first second => ?_, disjoint⟩
      obtain rfl := some_inj.mp first
      exact Nat.ne_of_gt (refs_pos_iff.mpr ⟨other, other_, second⟩) unknown
  · rintro ⟨other, other_, carried, same⟩
    rcases Multiset.mem_cons.mp other_ with rfl | other_
    · refine ⟨_, Multiset.mem_cons_self _ _, carried, fun word word_ => ?_⟩
      exact absurd (unshared.symm.trans (same word word_)) (some_ne_none word).symm
    · exact ⟨other, Multiset.mem_cons_of_mem other_, carried, same⟩

theorem answer (balanced : Balanced heap (exchange ::ₘ carriers) handed)
    (con : exchange.type = .msgCon) {response : Response}
    (allocated : ∀ buffer ∈ response.buffers, (heap.data buffer).isSome = true)
    (nodup : response.buffers.Nodup)
    (own : ∀ buffer ∈ response.buffers, ∀ other ∈ exchange ::ₘ carriers, buffer ∉ other.buffers)
    (last : response.buffers ≠ [] → ∀ word, exchange.sharedRef = some word →
      refs carriers word = 0) :
    Balanced heap ({ exchange with type := .msgAck, response := response } ::ₘ carriers)
      (handed ++ response.buffers.map fun buffer => (none, buffer)) := by
  have request : exchange.buffers = exchange.request.buffers := by
    rw [Exchange.buffers,
      balanced.noResponse exchange (Multiset.mem_cons_self exchange carriers) con]
    exact append_nil _
  have buffers : Exchange.buffers { exchange with type := .msgAck, response := response } =
      exchange.buffers ++ response.buffers := by
    rw [request]
    rfl
  have member := Multiset.mem_cons_self exchange carriers
  refine ⟨balanced.proper, fun word => ?_, ?_, ?_, ?_, ?_,
    consistent_cons (fun other other_ => ?_) (consistent_of_cons balanced.consistent),
    fun one one_ => ?_⟩
  · rw [balanced.counted, refs_cons, refs_cons]
  · refine Multiset.forall_mem_cons.mpr
      ⟨fun buffer carried => ?_, (Multiset.forall_mem_cons.mp balanced.allocated).2⟩
    rw [buffers] at carried
    rcases mem_append.mp carried with before | added
    · exact balanced.allocated exchange member buffer before
    · exact allocated buffer added
  · refine Multiset.forall_mem_cons.mpr ⟨?_, (Multiset.forall_mem_cons.mp balanced.nodup).2⟩
    rw [buffers]
    exact List.Nodup.append (balanced.nodup exchange member) nodup
      fun buffer before added => own buffer added exchange member before
  · refine Multiset.forall_mem_cons.mpr
      ⟨fun shared => ?_, (Multiset.forall_mem_cons.mp balanced.hasData).2⟩
    rw [buffers]
    exact append_ne_nil_of_left_ne_nil (balanced.hasData exchange member shared) _
  · exact Multiset.forall_mem_cons.mpr ⟨fun same => ExchangeType.noConfusion same,
      (Multiset.forall_mem_cons.mp balanced.noResponse).2⟩
  · rcases balanced.consistent exchange carriers rfl other other_ with
      ⟨word, first, second, same⟩ | ⟨apart, disjoint⟩
    · have none_ : response.buffers = [] := by
        by_contra some_
        exact Nat.ne_of_gt (refs_pos_iff.mpr ⟨other, other_, second⟩) (last some_ word first)
      refine Or.inl ⟨word, first, second, ?_⟩
      rw [buffers, none_, append_nil, same]
    · refine Or.inr ⟨apart, fun buffer carried => ?_⟩
      rw [buffers] at carried
      rcases mem_append.mp carried with before | added
      · exact disjoint buffer before
      · exact own buffer added other (Multiset.mem_cons_of_mem other_)
  · rcases mem_append.mp one_ with before | added
    · refine (balanced.settled one before).imp_left ?_
      rintro ⟨other, other_, carried, same⟩
      rcases Multiset.mem_cons.mp other_ with rfl | other_
      · refine ⟨_, Multiset.mem_cons_self _ _, ?_, same⟩
        rw [buffers]
        exact mem_append_left _ carried
      · exact ⟨other, Multiset.mem_cons_of_mem other_, carried, same⟩
    · obtain ⟨buffer, carried, rfl⟩ := mem_map.mp added
      refine Or.inl ⟨_, Multiset.mem_cons_self _ _, ?_,
        fun word none_ => absurd none_.symm (some_ne_none word)⟩
      exact mem_append_right _ carried

theorem handOver (balanced : Balanced heap carriers handed) (member : exchange ∈ carriers) :
    Balanced heap carriers
      (handed ++ exchange.buffers.map fun buffer => (exchange.sharedRef, buffer)) := by
  refine { balanced with settled := fun one one_ => ?_ }
  rcases mem_append.mp one_ with before | added
  · exact balanced.settled one before
  · obtain ⟨buffer, carried, rfl⟩ := mem_map.mp added
    exact Or.inl ⟨exchange, member, carried, fun word same => same⟩

section

variable (balanced : Balanced heap (exchange ::ₘ carriers) handed)
include balanced

theorem leave {next : Heap}
    (proper : next.Proper) (counted : ∀ word, next.word word = wordOf (refs carriers word))
    (kept : ∀ other ∈ carriers, ∀ buffer ∈ other.buffers, (next.data buffer).isSome = true)
    (settled : ∀ one ∈ handed, Settled next carriers one) : Balanced next carriers handed :=
  ⟨proper, counted, kept, (Multiset.forall_mem_cons.mp balanced.nodup).2,
    (Multiset.forall_mem_cons.mp balanced.hasData).2,
    (Multiset.forall_mem_cons.mp balanced.noResponse).2, consistent_of_cons balanced.consistent,
    settled⟩

theorem leave_shared {word : Nat}
    (shared : exchange.sharedRef = some word) (more : 0 < refs carriers word) :
    Balanced (heap.modifyWord word (· - 1)) carriers handed := by
  refine balanced.leave (balanced.proper.modifyWord _ _) (fun address => ?_)
    (Multiset.forall_mem_cons.mp balanced.allocated).2
    fun one one_ => (balanced.settled one one_).imp_left ?_
  · rw [Heap.modifyWord_word, balanced.counted, balanced.counted, refs_cons, refs_cons, shared]
    by_cases here : address = word
    · rw [if_pos here, if_pos rfl, here, wordOf_succ, wordOf, if_neg (Nat.ne_of_gt more)]
      rfl
    · rw [if_neg here, if_neg fun equal => here (some_inj.mp equal).symm, Nat.add_zero]
  · rintro ⟨other, other_, carried, same⟩
    rcases Multiset.mem_cons.mp other_ with rfl | other_
    · obtain ⟨third, third_, shared_⟩ := refs_pos_iff.mp more
      rcases balanced.consistent other carriers rfl third third_ with
        ⟨_, first, second, equal⟩ | ⟨apart, _⟩
      · refine ⟨third, third_, equal ▸ carried, fun address address_ => ?_⟩
        rw [second, ← first, same address address_]
      · exact absurd shared_ (apart word shared)
    · exact ⟨other, other_, carried, same⟩

theorem counted_of_last
    (last : ∀ word, exchange.sharedRef = some word → refs carriers word = 0) (address : Nat) :
    (if exchange.sharedRef = some address then none else heap.word address) =
      wordOf (refs carriers address) := by
  rw [balanced.counted, refs_cons]
  split
  · next shared => exact (wordOf_eq_none.mpr (last address shared)).symm
  · rfl

end

end Balanced

/-! ### Giving references back -/

section Free

variable {heap : Heap} {carriers : Multiset (Exchange Handler)} {exchange : Exchange Handler}
  {handed : List (Option Nat × Nat)}

def Heap.freeWord (heap : Heap) : Option Nat → Heap
  | none => heap
  | some word => (heap.modifyWord word (· - 1)).free (some word)

def Heap.freeAll (heap : Heap) (buffers : List Nat) : Heap :=
  buffers.foldl (fun heap buffer => heap.free (some buffer)) heap

theorem freeReference_of_shared {word count : Nat} (shared : exchange.sharedRef = some word)
    (counted : heap.word word = some (count + 1)) (more : 0 < count) :
    freeReference heap exchange = (false, exchange, heap.modifyWord word (· - 1)) := by
  unfold freeReference
  rw [shared]
  dsimp only
  rw [Heap.modifyWord_word, if_pos rfl, counted, map_some, getD_some,
    Nat.add_sub_cancel, if_pos more]

theorem freeReference_of_last
    (counted : ∀ word, exchange.sharedRef = some word → heap.word word = some 1) :
    freeReference heap exchange =
      (true, { exchange with sharedRef := none }, heap.freeWord exchange.sharedRef) := by
  unfold freeReference
  obtain ⟨id, request, response, type, handler, sharedRef⟩ := exchange
  cases sharedRef with
  | none => rfl
  | some word =>
    dsimp only
    rw [Heap.modifyWord_word, if_pos rfl, counted word rfl]
    rfl

theorem free_request (heap : Heap) (request : Request) :
    (if 0 < request.len then heap.free request.data else heap) = heap.freeAll request.buffers := by
  rw [Request.buffers]
  split
  · cases request.data with
    | none => rfl
    | some data => rfl
  · rfl

theorem free_response (heap : Heap) (response : Response) :
    (if 0 < response.len then heap.free response.data else heap) =
      heap.freeAll response.buffers := by
  rw [Response.buffers]
  split
  · cases response.data with
    | none => rfl
    | some data => rfl
  · rfl

theorem samgrFreeMsg_of_last
    (counted : ∀ word, exchange.sharedRef = some word → heap.word word = some 1) :
    samgrFreeMsg heap exchange = (heap.freeWord exchange.sharedRef).freeAll exchange.buffers := by
  unfold samgrFreeMsg
  rw [freeReference_of_last counted]
  rw [if_pos rfl, free_request, free_response, Exchange.buffers, Heap.freeAll, Heap.freeAll,
    Heap.freeAll, foldl_append]

theorem freeWord_word (sharedRef : Option Nat) (address : Nat) :
    (heap.freeWord sharedRef).word address =
      if sharedRef = some address then none else heap.word address := by
  cases sharedRef with
  | none => exact (if_neg (some_ne_none address).symm).symm
  | some word =>
    rw [Heap.freeWord, Heap.free_word, Heap.modifyWord_word]
    by_cases here : address = word
    · rw [if_pos here, if_pos (congrArg some here.symm)]
    · rw [if_neg here, if_neg here, if_neg fun equal => here (some_inj.mp equal).symm]

theorem freeWord_data (sharedRef : Option Nat) (address : Nat) :
    (heap.freeWord sharedRef).data address =
      if sharedRef = some address then none else heap.data address := by
  cases sharedRef with
  | none => exact (if_neg (some_ne_none address).symm).symm
  | some word =>
    rw [Heap.freeWord, Heap.free_data]
    by_cases here : address = word
    · rw [if_pos here, if_pos (congrArg some here.symm)]
    · rw [if_neg here, if_neg fun equal => here (some_inj.mp equal).symm]
      rfl

theorem mem_freed_freeWord (sharedRef : Option Nat) (address : Nat) :
    address ∈ (heap.freeWord sharedRef).freed ↔
      sharedRef = some address ∨ address ∈ heap.freed := by
  cases sharedRef with
  | none => exact (or_iff_right (some_ne_none address).symm).symm
  | some word =>
    rw [some_inj, eq_comm]
    exact mem_cons

theorem freeWord_proper (proper : heap.Proper) {sharedRef : Option Nat}
    (counted : ∀ word, sharedRef = some word → heap.word word = some 1) :
    (heap.freeWord sharedRef).Proper := by
  cases sharedRef with
  | none => exact proper
  | some word =>
    refine (proper.modifyWord word (· - 1)).free (Or.inl ?_)
    rw [Heap.modifyWord_word, if_pos rfl, counted word rfl]
    rfl

theorem freeAll_word (heap : Heap) (buffers : List Nat) (address : Nat) :
    (heap.freeAll buffers).word address =
      if address ∈ buffers then none else heap.word address := by
  induction buffers generalizing heap with
  | nil => exact (if_neg not_mem_nil).symm
  | cons buffer rest hypothesis =>
    rw [Heap.freeAll, foldl_cons, ← Heap.freeAll, hypothesis, Heap.free_word]
    by_cases first : address = buffer
    · simp [first]
    · simp [first]

theorem freeAll_data (heap : Heap) (buffers : List Nat) (address : Nat) :
    (heap.freeAll buffers).data address =
      if address ∈ buffers then none else heap.data address := by
  induction buffers generalizing heap with
  | nil => exact (if_neg not_mem_nil).symm
  | cons buffer rest hypothesis =>
    rw [Heap.freeAll, foldl_cons, ← Heap.freeAll, hypothesis, Heap.free_data]
    by_cases first : address = buffer
    · simp [first]
    · simp [first]

theorem mem_freed_freeAll (heap : Heap) (buffers : List Nat) (address : Nat) :
    address ∈ (heap.freeAll buffers).freed ↔ address ∈ buffers ∨ address ∈ heap.freed := by
  induction buffers generalizing heap with
  | nil => exact (or_iff_right not_mem_nil).symm
  | cons buffer rest hypothesis =>
    rw [Heap.freeAll, foldl_cons, ← Heap.freeAll, hypothesis, mem_cons]
    change _ ∨ address ∈ buffer :: heap.freed ↔ _
    rw [mem_cons]
    tauto

theorem freeAll_proper {heap : Heap} (proper : heap.Proper) {buffers : List Nat}
    (nodup : buffers.Nodup) (allocated : ∀ buffer ∈ buffers, (heap.data buffer).isSome = true) :
    (heap.freeAll buffers).Proper := by
  induction buffers generalizing heap with
  | nil => exact proper
  | cons buffer rest hypothesis =>
    obtain ⟨first, others⟩ := nodup_cons.mp nodup
    obtain ⟨here, there⟩ := forall_mem_cons.mp allocated
    refine hypothesis (proper.free (Or.inr here)) others fun other member => ?_
    rw [Heap.free_data, if_neg fun same : other = buffer => first (same ▸ member)]
    exact there other member

end Free

namespace Balanced

variable {heap : Heap} {carriers : Multiset (Exchange Handler)} {exchange : Exchange Handler}
  {handed : List (Option Nat × Nat)}

theorem counted_one (balanced : Balanced heap (exchange ::ₘ carriers) handed)
    (last : ∀ word, exchange.sharedRef = some word → refs carriers word = 0) (word : Nat)
    (shared : exchange.sharedRef = some word) : heap.word word = some 1 := by
  rw [balanced.counted, refs_cons, last word shared, if_pos shared]
  rfl

theorem word_ne_buffer (balanced : Balanced heap carriers handed) {other : Exchange Handler}
    {word buffer : Nat} (member : exchange ∈ carriers) (shared : exchange.sharedRef = some word)
    (other_ : other ∈ carriers) (carried : buffer ∈ other.buffers) : word ≠ buffer := by
  rintro rfl
  have there := balanced.word_isSome_iff.mpr ⟨exchange, member, shared⟩
  rw [balanced.proper.apart word (balanced.allocated other other_ word carried)] at there
  cases there

theorem giveBack (balanced : Balanced heap (exchange ::ₘ carriers) handed)
    (kept : (∃ word, exchange.sharedRef = some word ∧ 0 < refs carriers word) ∨
      ∀ one ∈ handed, one.2 ∉ exchange.buffers) :
    Balanced (freeReference heap exchange).2.2 carriers handed := by
  by_cases more : ∃ word, exchange.sharedRef = some word ∧ 0 < refs carriers word
  · obtain ⟨word, shared, more⟩ := more
    have counted : heap.word word = some (refs carriers word + 1) := by
      rw [balanced.counted, refs_cons, if_pos shared, wordOf_succ]
    rw [freeReference_of_shared shared counted more]
    exact balanced.leave_shared shared more
  · have last (word : Nat) (shared : exchange.sharedRef = some word) : refs carriers word = 0 :=
      Nat.eq_zero_of_not_pos fun positive => more ⟨word, shared, positive⟩
    have counted := balanced.counted_one last
    rw [freeReference_of_last counted]
    refine balanced.leave (freeWord_proper balanced.proper counted) (fun address => ?_)
      (fun other other_ buffer carried => ?_) fun one one_ => ?_
    · rw [freeWord_word, balanced.counted_of_last last]
    · have member : other ∈ exchange ::ₘ carriers := Multiset.mem_cons_of_mem other_
      rw [freeWord_data, if_neg fun shared => balanced.word_ne_buffer
        (Multiset.mem_cons_self exchange carriers) shared member carried rfl]
      exact balanced.allocated other member buffer carried
    · rcases balanced.settled one one_ with ⟨other, other_, carried, same⟩ | ⟨freed, words⟩
      · rcases Multiset.mem_cons.mp other_ with rfl | other_
        · exact absurd carried ((kept.resolve_left more) one one_)
        · exact Or.inl ⟨other, other_, carried, same⟩
      · refine Or.inr ⟨(mem_freed_freeWord _ _).mpr (Or.inr freed), fun word word_ => ?_⟩
        exact (mem_freed_freeWord _ _).mpr (Or.inr (words word word_))

theorem samgrFreeMsg (balanced : Balanced heap (exchange ::ₘ carriers) handed) :
    Balanced (samgrFreeMsg heap exchange) carriers handed := by
  have member := Multiset.mem_cons_self exchange carriers
  by_cases more : ∃ word, exchange.sharedRef = some word ∧ 0 < refs carriers word
  · obtain ⟨word, shared, more⟩ := more
    have counted : heap.word word = some (refs carriers word + 1) := by
      rw [balanced.counted, refs_cons, if_pos shared, wordOf_succ]
    rw [samgrFreeMsg_of_shared shared counted more]
    exact balanced.leave_shared shared more
  · have last (word : Nat) (shared : exchange.sharedRef = some word) : refs carriers word = 0 :=
      Nat.eq_zero_of_not_pos fun positive => more ⟨word, shared, positive⟩
    have counted := balanced.counted_one last
    have apart (buffer : Nat) (other : Exchange Handler) (other_ : other ∈ exchange ::ₘ carriers)
        (carried : buffer ∈ other.buffers) : exchange.sharedRef ≠ some buffer := fun shared =>
      balanced.word_ne_buffer member shared other_ carried rfl
    rw [samgrFreeMsg_of_last counted]
    refine balanced.leave (freeAll_proper (freeWord_proper balanced.proper counted)
      (balanced.nodup exchange member) fun buffer carried => ?_) (fun address => ?_)
      (fun other other_ buffer carried => ?_) fun one one_ => ?_
    · rw [freeWord_data, if_neg (apart buffer exchange member carried)]
      exact balanced.allocated exchange member buffer carried
    · rw [freeAll_word, freeWord_word, balanced.counted_of_last last]
      split
      · next carried =>
        have none_ := balanced.proper.apart address
          (balanced.allocated exchange member address carried)
        rw [← balanced.counted_of_last last, none_, ite_self]
      · rfl
    · have disjoint : buffer ∉ exchange.buffers := by
        rcases balanced.consistent exchange carriers rfl other other_ with
          ⟨word, first, second, _⟩ | ⟨_, disjoint⟩
        · exact absurd (last word first) (Nat.ne_of_gt (refs_pos_iff.mpr ⟨other, other_, second⟩))
        · exact fun here => disjoint buffer here carried
      have other_ : other ∈ exchange ::ₘ carriers := Multiset.mem_cons_of_mem other_
      rw [freeAll_data, if_neg disjoint, freeWord_data, if_neg (apart buffer other other_ carried)]
      exact balanced.allocated other other_ buffer carried
    · have stays (address : Nat) (freed : exchange.sharedRef = some address ∨
          address ∈ exchange.buffers ∨ address ∈ heap.freed) :
          address ∈ ((heap.freeWord exchange.sharedRef).freeAll exchange.buffers).freed := by
        rw [mem_freed_freeAll, mem_freed_freeWord]
        tauto
      rcases balanced.settled one one_ with ⟨other, other_, carried, same⟩ | ⟨freed, words⟩
      · rcases Multiset.mem_cons.mp other_ with rfl | other_
        · exact Or.inr ⟨stays _ (Or.inr (Or.inl carried)),
            fun word word_ => stays word (Or.inl (same word word_))⟩
        · exact Or.inl ⟨other, other_, carried, same⟩
      · exact Or.inr ⟨stays _ (Or.inr (Or.inr freed)),
          fun word word_ => stays word (Or.inr (Or.inr (words word word_)))⟩

end Balanced

end TowerSafe.Message
