/-
This file models the hash map of init: nodes that carry their own link, in a fixed number of
buckets, found by callbacks on nodes and on keys. It says when a sequence of calls behaves as a
finite map from keys to nodes does.
-/

import Mathlib.Data.List.Nodup
import TowerSafe.Library.FreeList

namespace TowerSafe.HashMap

open Library List
open Function (update update_self update_of_ne)
open Option (bind_eq_some_iff bind_some map_eq_some_iff some.inj)

variable {Node Key : Type}

/-! ### The map -/

/-- `HashInfo`, without the callback that frees a node. -/
structure HashInfo (Node Key : Type) where
  nodeCompare : Node → Node → Int32
  keyCompare : Node → Key → Int32
  nodeHash : Node → Int32
  keyHash : Key → Int32
  maxBucket : Nat

/-- The buckets of a `HashTab`, with the links of all nodes. -/
structure HashTab (Node : Type) where
  buckets : Nat → Option Node
  next : Node → Option Node

/-- The buckets as `OH_HashMapCreate` leaves them; the links of the nodes are their owner's. -/
def HashTab.Created (tab : HashTab Node) : Prop :=
  ∀ hashCode, tab.buckets hashCode = none

/-- The absolute value of a hash, modulo the number of buckets. The negation of the smallest `int`
is undefined. -/
def HashInfo.hashIndex (info : HashInfo Node Key) (hashCode : Int32) : Option Nat :=
  if hashCode = Int32.minValue then none
  else some (hashCode.toInt.natAbs % info.maxBucket)

/-- The loop of `GetHashNodeByNode` and of `GetHashNodeByKey`. -/
def findNode (next : Node → Option Node) (equal : Node → Bool) :
    Nat → Option Node → Option (Option Node)
  | 0, _ => none
  | _ + 1, none => some none
  | fuel + 1, some node =>
      if equal node then some (some node) else findNode next equal fuel (next node)

def getHashNodeByNode (info : HashInfo Node Key) (tab : HashTab Node) (fuel : Nat)
    (root : Option Node) (new : Node) : Option (Option Node) :=
  findNode tab.next (fun node => info.nodeCompare node new = 0) fuel root

def getHashNodeByKey (tab : HashTab Node) (fuel : Nat) (root : Option Node) (key : Key)
    (keyCompare : Node → Key → Int32) : Option (Option Node) :=
  findNode tab.next (fun node => keyCompare node key = 0) fuel root

section Operations

variable [DecidableEq Node] (info : HashInfo Node Key) (tab : HashTab Node) (fuel : Nat)

def ohHashMapAdd (node : Node) : Option (HashTab Node × Int) :=
  if (tab.next node).isSome then some (tab, -1)
  else
    (info.hashIndex (info.nodeHash node)).bind fun hashCode =>
      (getHashNodeByNode info tab fuel (tab.buckets hashCode) node).map fun
        | some _ => (tab, -1)
        | none =>
            ({ buckets := update tab.buckets hashCode (some node)
               next := update tab.next node (tab.buckets hashCode) }, 0)

/-- What `OH_HashMapRemove` does to the links when it has found the node. -/
def HashTab.unlink (hashCode : Nat) (preNode : Option Node) (node : Node) : HashTab Node :=
  if tab.buckets hashCode = some node then
    { tab with buckets := update tab.buckets hashCode (tab.next node) }
  else
    match preNode with
    | some before => { tab with next := update tab.next before (tab.next node) }
    | none => tab

/-- The loop of `OH_HashMapRemove`. -/
def removeLoop (hashCode : Nat) (key : Key) : Nat → Option Node → Option Node →
    Option (HashTab Node)
  | 0, _, _ => none
  | _ + 1, _, none => some tab
  | fuel + 1, preNode, some node =>
      if info.keyCompare node key = 0 then some (tab.unlink hashCode preNode node)
      else removeLoop hashCode key fuel (some node) (tab.next node)

def ohHashMapRemove (key : Key) : Option (HashTab Node) :=
  (info.hashIndex (info.keyHash key)).bind fun hashCode =>
    removeLoop info tab hashCode key fuel (tab.buckets hashCode) (tab.buckets hashCode)

def ohHashMapGet (key : Key) : Option (Option Node) :=
  (info.hashIndex (info.keyHash key)).bind fun hashCode =>
    getHashNodeByKey tab fuel (tab.buckets hashCode) key info.keyCompare

/-- `OH_HashMapFind`: a search with another callback, in a bucket that the caller names. -/
def ohHashMapFind (hashCode : Nat) (equal : Node → Bool) : Option (Option Node) :=
  if hashCode < info.maxBucket then findNode tab.next equal fuel (tab.buckets hashCode)
  else some none

end Operations

/-! ### Sequences of calls -/

/-- A call. -/
inductive Action (Node Key : Type) where
  | add (node : Node)
  | remove (key : Key)
  | get (key : Key)
  deriving DecidableEq

/-- What a call returns. -/
inductive Ret (Node : Type) where
  | code (value : Int)
  | done
  | node (found : Option Node)
  deriving DecidableEq

/-- One call, with enough fuel for its loop or without a result. -/
def step [DecidableEq Node] (info : HashInfo Node Key) (fuel : Nat) (tab : HashTab Node) :
    Action Node Key → Option (HashTab Node × Ret Node)
  | .add node => (ohHashMapAdd info tab fuel node).map fun (next, value) => (next, .code value)
  | .remove key => (ohHashMapRemove info tab fuel key).map fun next => (next, .done)
  | .get key => (ohHashMapGet info tab fuel key).map fun found => (tab, .node found)

/-- What the calls of a sequence return. -/
def run [DecidableEq Node] (info : HashInfo Node Key) (fuel : Nat) :
    HashTab Node → List (Action Node Key) → Option (List (Ret Node))
  | _, [] => some []
  | tab, action :: rest =>
      (step info fuel tab action).bind fun (next, ret) => (run info fuel next rest).map (ret :: ·)

/-! ### The finite map -/

/-- A finite map from keys to nodes. -/
abbrev Contents (Node Key : Type) := Key → Option Node

namespace Contents

variable [DecidableEq Key]

/-- A call on the finite map: a node is added unless its key is there, and a removed key is the
only one that goes. -/
def step (keyOf : Node → Key) (contents : Contents Node Key) :
    Action Node Key → Contents Node Key × Ret Node
  | .add node =>
      if (contents (keyOf node)).isSome then (contents, .code (-1))
      else (update contents (keyOf node) (some node), .code 0)
  | .remove key => (update contents key none, .done)
  | .get key => (contents, .node (contents key))

theorem step_add_of_some {keyOf : Node → Key} {contents : Contents Node Key} {node other : Node}
    (present : contents (keyOf node) = some other) :
    contents.step keyOf (.add node) = (contents, .code (-1)) :=
  if_pos (by rw [present]; rfl)

theorem step_add_of_none {keyOf : Node → Key} {contents : Contents Node Key} {node : Node}
    (absent : contents (keyOf node) = none) : contents.step keyOf (.add node) =
      (update contents (keyOf node) (some node), .code 0) :=
  if_neg (by rw [absent]; exact nofun)

/-- What a sequence of calls on the finite map returns. -/
def run (keyOf : Node → Key) : Contents Node Key → List (Action Node Key) → List (Ret Node)
  | _, [] => []
  | contents, action :: rest =>
      (contents.step keyOf action).2 :: run keyOf (contents.step keyOf action).1 rest

end Contents

/-- The callbacks are consistent: they compare and hash the keys that the nodes stand for. -/
structure Consistent (info : HashInfo Node Key) (keyOf : Node → Key) : Prop where
  nodeCompare : ∀ node other, info.nodeCompare node other = 0 ↔ keyOf node = keyOf other
  keyCompare : ∀ node key, info.keyCompare node key = 0 ↔ keyOf node = key
  nodeHash : ∀ node, info.nodeHash node = info.keyHash (keyOf node)

/-- The calls the code answers as the map does: the absolute value of the hash exists, and a node
that is to be added carries no link, unless its key is there anyway. -/
def Fits (info : HashInfo Node Key) (keyOf : Node → Key) (tab : HashTab Node)
    (contents : Contents Node Key) : Action Node Key → Prop
  | .add node => info.keyHash (keyOf node) ≠ Int32.minValue ∧
      (tab.next node = none ∨ (contents (keyOf node)).isSome)
  | .remove key => info.keyHash key ≠ Int32.minValue
  | .get key => info.keyHash key ≠ Int32.minValue

/-- Every call of a sequence is one the code answers as the map does. -/
def AllFit [DecidableEq Node] [DecidableEq Key] (info : HashInfo Node Key) (keyOf : Node → Key) :
    HashTab Node → Contents Node Key → List (Action Node Key) → Prop
  | _, _, [] => True
  | tab, contents, action :: rest => Fits info keyOf tab contents action ∧
      ∀ fuel next ret, step info fuel tab action = some (next, ret) →
        AllFit info keyOf next (contents.step keyOf action).1 rest

/-! ### The loops -/

section Loops

variable {next : Node → Option Node} {equal : Node → Bool} {first : Option Node}
  {nodes front back : List Node} {node : Node} {fuel more : Nat}

theorem findNode_mono {found : Option Node} (result : findNode next equal fuel first = some found)
    (enough : fuel ≤ more) : findNode next equal more first = some found := by
  induction fuel generalizing first more with
  | zero => exact absurd result nofun
  | succ fuel hypothesis =>
    obtain ⟨more, rfl⟩ := Nat.exists_eq_add_one_of_ne_zero (by omega : more ≠ 0)
    cases first with
    | none => exact result
    | some node =>
      unfold findNode at result ⊢
      split at result
      · rename_i holds
        rw [if_pos holds]
        exact result
      · rename_i fails
        rw [if_neg fails]
        exact hypothesis result (by omega)

theorem findNode_of_threads (threads : Threads next first nodes) (enough : nodes.length < fuel) :
    findNode next equal fuel first = some (nodes.find? equal) := by
  induction nodes generalizing first fuel with
  | nil =>
    obtain rfl : first = none := threads
    obtain ⟨fuel, rfl⟩ := Nat.exists_eq_add_one_of_ne_zero (by omega : fuel ≠ 0)
    rfl
  | cons node rest hypothesis =>
    obtain ⟨rfl, tail⟩ := threads
    rw [length_cons] at enough
    obtain ⟨fuel, rfl⟩ := Nat.exists_eq_add_one_of_ne_zero (by omega : fuel ≠ 0)
    unfold findNode
    rw [List.find?_cons]
    cases equal node with
    | true => rfl
    | false => exact hypothesis tail (by omega)

variable [DecidableEq Node] {info : HashInfo Node Key} {tab : HashTab Node} {hashCode : Nat}
  {key : Key} {preNode : Option Node}

theorem removeLoop_mono {result : HashTab Node}
    (taken : removeLoop info tab hashCode key fuel preNode first = some result)
    (enough : fuel ≤ more) : removeLoop info tab hashCode key more preNode first = some result := by
  induction fuel generalizing first preNode more with
  | zero => exact absurd taken nofun
  | succ fuel hypothesis =>
    obtain ⟨more, rfl⟩ := Nat.exists_eq_add_one_of_ne_zero (by omega : more ≠ 0)
    cases first with
    | none => exact taken
    | some node =>
      unfold removeLoop at taken ⊢
      split at taken
      · rename_i holds
        rw [if_pos holds]
        exact taken
      · rename_i fails
        rw [if_neg fails]
        exact hypothesis taken (by omega)

theorem removeLoop_of_absent (threads : Threads tab.next first nodes)
    (absent : ∀ node ∈ nodes, info.keyCompare node key ≠ 0) (enough : nodes.length < fuel) :
    removeLoop info tab hashCode key fuel preNode first = some tab := by
  induction nodes generalizing first preNode fuel with
  | nil =>
    obtain rfl : first = none := threads
    obtain ⟨fuel, rfl⟩ := Nat.exists_eq_add_one_of_ne_zero (by omega : fuel ≠ 0)
    rfl
  | cons node rest hypothesis =>
    obtain ⟨rfl, tail⟩ := threads
    rw [length_cons] at enough
    obtain ⟨fuel, rfl⟩ := Nat.exists_eq_add_one_of_ne_zero (by omega : fuel ≠ 0)
    unfold removeLoop
    rw [if_neg (absent node mem_cons_self)]
    exact hypothesis tail (fun other member => absent other (.tail _ member)) (by omega)

theorem removeLoop_of_found (threads : Threads tab.next first (front ++ node :: back))
    (before : ∀ other ∈ front, info.keyCompare other key ≠ 0) (here : info.keyCompare node key = 0)
    (enough : front.length < fuel) : removeLoop info tab hashCode key fuel preNode first =
      some (tab.unlink hashCode (front.getLast?.or preNode) node) := by
  induction front generalizing first preNode fuel with
  | nil =>
    obtain ⟨rfl, -⟩ := threads
    obtain ⟨fuel, rfl⟩ := Nat.exists_eq_add_one_of_ne_zero (by omega : fuel ≠ 0)
    exact if_pos here
  | cons other rest hypothesis =>
    obtain ⟨rfl, tail⟩ := threads
    rw [length_cons] at enough
    obtain ⟨fuel, rfl⟩ := Nat.exists_eq_add_one_of_ne_zero (by omega : fuel ≠ 0)
    unfold removeLoop
    rw [if_neg (before other mem_cons_self),
      hypothesis tail (fun one member => before one (.tail _ member)) (by omega)]
    cases rest with
    | nil => rfl
    | cons one others => rfl

theorem step_mono {action : Action Node Key} {result : HashTab Node × Ret Node}
    (taken : step info fuel tab action = some result) (enough : fuel ≤ more) :
    step info more tab action = some result := by
  cases action with
  | add node =>
    obtain ⟨added, isAdded, rfl⟩ := map_eq_some_iff.mp taken
    refine map_eq_some_iff.mpr ⟨added, ?_, rfl⟩
    unfold ohHashMapAdd at isAdded ⊢
    split at isAdded
    · rename_i linked
      rw [if_pos linked]
      exact isAdded
    rename_i unlinked
    rw [if_neg unlinked]
    obtain ⟨hashCode, isHash, mapped⟩ := bind_eq_some_iff.mp isAdded
    obtain ⟨found, isFound, same⟩ := map_eq_some_iff.mp mapped
    refine bind_eq_some_iff.mpr ⟨hashCode, isHash, ?_⟩
    exact map_eq_some_iff.mpr ⟨found, findNode_mono isFound enough, same⟩
  | remove key =>
    obtain ⟨after, isAfter, rfl⟩ := map_eq_some_iff.mp taken
    obtain ⟨hashCode, isHash, removed⟩ := bind_eq_some_iff.mp isAfter
    refine map_eq_some_iff.mpr ⟨after, ?_, rfl⟩
    exact bind_eq_some_iff.mpr ⟨hashCode, isHash, removeLoop_mono removed enough⟩
  | get key =>
    obtain ⟨found, isFound, rfl⟩ := map_eq_some_iff.mp taken
    obtain ⟨hashCode, isHash, search⟩ := bind_eq_some_iff.mp isFound
    refine map_eq_some_iff.mpr ⟨found, ?_, rfl⟩
    exact bind_eq_some_iff.mpr ⟨hashCode, isHash, findNode_mono search enough⟩

end Loops

/-! ### The chains hold the map -/

/-- The nodes of the buckets are those of the map, each in the bucket of its hash. -/
structure Represents (info : HashInfo Node Key) (keyOf : Node → Key) (tab : HashTab Node)
    (contents : Contents Node Key) (chains : Nat → List Node) : Prop where
  threads : ∀ hashCode, Threads tab.next (tab.buckets hashCode) (chains hashCode)
  home : ∀ hashCode, ∀ node ∈ chains hashCode,
    info.hashIndex (info.keyHash (keyOf node)) = some hashCode
  mem_iff : ∀ node, contents (keyOf node) = some node ↔ ∃ hashCode, node ∈ chains hashCode
  keyed : ∀ key node, contents key = some node → keyOf node = key

theorem hashIndex_eq_some (info : HashInfo Node Key) {hashCode : Int32}
    (exists_ : hashCode ≠ Int32.minValue) : ∃ index, info.hashIndex hashCode = some index :=
  ⟨_, if_neg exists_⟩

theorem ne_minValue_of_hashIndex {info : HashInfo Node Key} {hashCode : Int32} {index : Nat}
    (isIndex : info.hashIndex hashCode = some index) : hashCode ≠ Int32.minValue := by
  rintro rfl
  exact absurd isIndex (by unfold HashInfo.hashIndex; rw [if_pos rfl]; exact nofun)

theorem represents_created {info : HashInfo Node Key} {keyOf : Node → Key} {tab : HashTab Node}
    (created : tab.Created) : Represents info keyOf tab (fun _ => none) fun _ => [] where
  threads := created
  home := fun _ _ no => by cases no
  mem_iff := fun _ => ⟨nofun, fun ⟨_, no⟩ => by cases no⟩
  keyed := nofun

theorem exists_mem_update {chains : Nat → List Node} {hashCode : Nat} {nodes : List Node}
    {node : Node} : (∃ index, node ∈ update chains hashCode nodes index) ↔
      node ∈ nodes ∨ ∃ index, index ≠ hashCode ∧ node ∈ chains index := by
  constructor
  · rintro ⟨index, member⟩
    by_cases same : index = hashCode
    · subst same
      rw [update_self] at member
      exact .inl member
    · rw [update_of_ne same] at member
      exact .inr ⟨index, same, member⟩
  · rintro (member | ⟨index, differs, member⟩)
    · exact ⟨hashCode, by rw [update_self]; exact member⟩
    · exact ⟨index, by rw [update_of_ne differs]; exact member⟩

theorem exists_mem_iff {chains : Nat → List Node} (hashCode : Nat) {node : Node} :
    (∃ index, node ∈ chains index) ↔
      node ∈ chains hashCode ∨ ∃ index, index ≠ hashCode ∧ node ∈ chains index := by
  rw [← exists_mem_update, Function.update_eq_self]

namespace Represents

variable {info : HashInfo Node Key} {keyOf : Node → Key} {tab : HashTab Node}
  {contents : Contents Node Key} {chains : Nat → List Node} {node other : Node} {key : Key}
  {hashCode : Nat}

section

variable (represents : Represents info keyOf tab contents chains)
include represents

theorem mem_chain (isHash : info.hashIndex (info.keyHash key) = some hashCode)
    (present : contents key = some node) : node ∈ chains hashCode := by
  obtain rfl := represents.keyed key node present
  obtain ⟨index, member⟩ := (represents.mem_iff node).mp present
  have same := (represents.home index node member).symm.trans isHash
  exact some.inj same ▸ member

theorem eq_of_key
    (member : other ∈ chains hashCode) (present : contents (keyOf other) = some node) :
    other = node :=
  some.inj (((represents.mem_iff other).mpr ⟨hashCode, member⟩).symm.trans present)

theorem find_eq (isHash : info.hashIndex (info.keyHash key) = some hashCode) {equal : Node → Bool}
    (equal_iff : ∀ node, equal node = true ↔ keyOf node = key) :
    (chains hashCode).find? equal = contents key := by
  cases present : contents key with
  | none =>
    refine List.find?_eq_none.mpr fun node member holds => ?_
    have isKey := (equal_iff node).mp holds
    have inMap := (represents.mem_iff node).mpr ⟨hashCode, member⟩
    rw [isKey, present] at inMap
    exact absurd inMap nofun
  | some node =>
    have member := represents.mem_chain isHash present
    have isKey := represents.keyed key node present
    cases found : (chains hashCode).find? equal with
    | none => exact absurd ((equal_iff node).mpr isKey) (List.find?_eq_none.mp found node member)
    | some other =>
      have otherKey := (equal_iff other).mp (List.find?_some found)
      rw [represents.eq_of_key (mem_of_find?_eq_some found) (otherKey ▸ present)]

theorem ne_of_index {index : Nat}
    (differs : index ≠ hashCode) (member : other ∈ chains index) (here : node ∈ chains hashCode) :
    other ≠ node := by
  rintro rfl
  exact differs (some.inj ((represents.home _ _ member).symm.trans (represents.home _ _ here)))

end

variable [DecidableEq Node]

theorem clear (represents : Represents info keyOf tab contents chains)
    (absent : contents (keyOf node) = none) :
    Represents info keyOf { tab with next := update tab.next node none } contents chains where
  threads := fun hashCode => (represents.threads hashCode).congr fun other member => by
    refine update_of_ne ?_ _ _
    rintro rfl
    have inMap := (represents.mem_iff other).mpr ⟨hashCode, member⟩
    rw [absent] at inMap
    exact absurd inMap nofun
  home := represents.home
  mem_iff := represents.mem_iff
  keyed := represents.keyed

theorem threads_unlink (represents : Represents info keyOf tab contents chains)
    {front back : List Node} (chain : chains hashCode = front ++ node :: back) (index : Nat) :
    Threads (tab.unlink hashCode (front.getLast?.or (tab.buckets hashCode)) node).next
      ((tab.unlink hashCode (front.getLast?.or (tab.buckets hashCode)) node).buckets index)
      (update chains hashCode (front ++ back) index) := by
  have threads := represents.threads hashCode
  rw [chain] at threads
  rcases eq_nil_or_concat front with rfl | ⟨rest, before, rfl⟩
  · have isFirst : tab.buckets hashCode = some node := threads.1
    unfold HashTab.unlink
    rw [if_pos isFirst]
    dsimp only
    by_cases same : index = hashCode
    · subst same
      rw [update_self, update_self]
      exact threads.2
    · rw [update_of_ne same, update_of_ne same]
      exact represents.threads index
  · rw [concat_eq_append] at threads chain ⊢
    have notFirst : tab.buckets hashCode ≠ some node := by
      intro isFirst
      have head := threads.first_eq.symm.trans isFirst
      have inFront : node ∈ rest ++ [before] := by
        cases rest with
        | nil => exact some.inj head ▸ mem_cons_self
        | cons one others => exact some.inj head ▸ mem_cons_self
      exact (nodup_cons.mp (nodup_middle.mp threads.nodup)).1
        (mem_append_left _ inFront)
    have others : ∀ other, other ≠ before →
        update tab.next before (tab.next node) other = tab.next other :=
      fun other differs => update_of_ne differs _ _
    unfold HashTab.unlink
    rw [if_neg notFirst, List.getLast?_concat]
    by_cases same : index = hashCode
    · subst same
      rw [update_self]
      rw [append_assoc] at threads ⊢
      exact threads.unlink (update_self ..) others
    · rw [update_of_ne same]
      have inChain : before ∈ chains hashCode := by
        rw [chain]
        exact mem_append_left _ (mem_append_right _ mem_cons_self)
      exact (represents.threads index).congr fun other member =>
        others other (represents.ne_of_index same member inChain)

variable [DecidableEq Key]

theorem add (represents : Represents info keyOf tab contents chains)
    (isHash : info.hashIndex (info.keyHash (keyOf node)) = some hashCode)
    (absent : contents (keyOf node) = none) : Represents info keyOf
      { buckets := update tab.buckets hashCode (some node)
        next := update tab.next node (tab.buckets hashCode) }
      (update contents (keyOf node) (some node))
      (update chains hashCode (node :: chains hashCode)) := by
  have fresh : ∀ index, node ∉ chains index := fun index member => by
    have inMap := (represents.mem_iff node).mpr ⟨index, member⟩
    rw [absent] at inMap
    exact absurd inMap nofun
  refine ⟨fun index => ?_, fun index other member => ?_, fun other => ?_, fun key other => ?_⟩
  · have others : ∀ other, other ≠ node →
        update tab.next node (tab.buckets hashCode) other = tab.next other :=
      fun other differs => update_of_ne differs _ _
    dsimp only
    by_cases here : index = hashCode
    · subst here
      rw [update_self, update_self]
      exact (represents.threads index).push (fresh index) (update_self ..) others
    · rw [update_of_ne here, update_of_ne here]
      exact (represents.threads index).congr fun other member =>
        others other fun same => fresh index (same ▸ member)
  · by_cases here : index = hashCode
    · subst here
      rw [update_self] at member
      rcases mem_cons.mp member with rfl | old
      · exact isHash
      · exact represents.home index other old
    · rw [update_of_ne here] at member
      exact represents.home index other member
  · have inChains : (∃ index, other ∈ update chains hashCode
        (node :: chains hashCode) index) ↔ other = node ∨ ∃ index, other ∈ chains index := by
      rw [exists_mem_update, exists_mem_iff hashCode, mem_cons, or_assoc]
    rw [inChains, ← represents.mem_iff]
    by_cases sameKey : keyOf other = keyOf node
    · rw [sameKey, update_self, absent, Option.some.injEq]
      exact ⟨fun same => .inl same.symm, fun either => (either.resolve_right nofun).symm⟩
    · rw [update_of_ne sameKey]
      exact ⟨.inr, fun either => either.resolve_left fun same => sameKey (same ▸ rfl)⟩
  · intro present
    by_cases sameKey : key = keyOf node
    · rw [sameKey, update_self] at present
      rw [sameKey, some.inj present]
    · rw [update_of_ne sameKey] at present
      exact represents.keyed key other present

theorem remove (represents : Represents info keyOf tab contents chains)
    (isHash : info.hashIndex (info.keyHash key) = some hashCode)
    (present : contents key = some node) {front back : List Node}
    (chain : chains hashCode = front ++ node :: back) : Represents info keyOf
      (tab.unlink hashCode (front.getLast?.or (tab.buckets hashCode)) node)
      (update contents key none) (update chains hashCode (front ++ back)) := by
  have here := represents.mem_chain isHash present
  have mem_rest : ∀ other, other ∈ front ++ back ↔ other ∈ chains hashCode ∧ other ≠ node := by
    intro other
    have distinct := (represents.threads hashCode).nodup
    rw [chain] at distinct ⊢
    have outside := (nodup_cons.mp (nodup_middle.mp distinct)).1
    simp only [mem_append, mem_cons] at outside ⊢
    constructor
    · intro member
      refine ⟨member.imp_right .inr, ?_⟩
      rintro rfl
      exact outside member
    · rintro ⟨inFront | itself | inBack, differs⟩
      · exact .inl inFront
      · exact absurd itself differs
      · exact .inr inBack
  refine ⟨represents.threads_unlink chain, fun index other member => ?_, fun other => ?_,
    fun one other => ?_⟩
  · by_cases same : index = hashCode
    · subst same
      rw [update_self] at member
      exact represents.home index other ((mem_rest other).mp member).1
    · rw [update_of_ne same] at member
      exact represents.home index other member
  · have inChains : (∃ index, other ∈ update chains hashCode (front ++ back) index) ↔
        (∃ index, other ∈ chains index) ∧ other ≠ node := by
      rw [exists_mem_update, exists_mem_iff hashCode, mem_rest, or_and_right]
      refine or_congr_right ⟨fun ⟨index, differs, member⟩ => ?_, And.left⟩
      exact ⟨⟨index, differs, member⟩, represents.ne_of_index differs member here⟩
    rw [inChains, ← represents.mem_iff]
    by_cases sameKey : keyOf other = key
    · rw [sameKey, update_self, present]
      refine ⟨nofun, fun ⟨itself, differs⟩ => absurd (some.inj itself).symm differs⟩
    rw [update_of_ne sameKey]
    refine ⟨fun inMap => ⟨inMap, ?_⟩, And.left⟩
    rintro rfl
    exact sameKey (represents.keyed key other present)
  · intro inMap
    by_cases sameKey : one = key
    · rw [sameKey, update_self] at inMap
      exact absurd inMap nofun
    · rw [update_of_ne sameKey] at inMap
      exact represents.keyed one other inMap

end Represents

/-! ### One call -/

section Calls

variable [DecidableEq Node] [DecidableEq Key] {info : HashInfo Node Key} {keyOf : Node → Key}
  {tab : HashTab Node} {contents : Contents Node Key} {chains : Nat → List Node}
  {action : Action Node Key}

/-- The key that a call is about. -/
def Action.key (keyOf : Node → Key) : Action Node Key → Key
  | .add node => keyOf node
  | .remove key => key
  | .get key => key

omit [DecidableEq Node] [DecidableEq Key] in
theorem Fits.hash (fits : Fits info keyOf tab contents action) :
    info.keyHash (action.key keyOf) ≠ Int32.minValue := by
  cases action with
  | add node => exact fits.1
  | remove key => exact fits
  | get key => exact fits

omit [DecidableEq Node] [DecidableEq Key] in
theorem ohHashMapGet_eq (consistent : Consistent info keyOf)
    (represents : Represents info keyOf tab contents chains) {key : Key} {hashCode fuel : Nat}
    (isHash : info.hashIndex (info.keyHash key) = some hashCode)
    (enough : (chains hashCode).length < fuel) :
    ohHashMapGet info tab fuel key = some (contents key) := by
  have find : (chains hashCode).find? (fun other => info.keyCompare other key = 0) = contents key :=
    represents.find_eq isHash fun other => decide_eq_true_iff.trans (consistent.keyCompare other key)
  refine bind_eq_some_iff.mpr ⟨hashCode, isHash, ?_⟩
  exact find ▸ findNode_of_threads (represents.threads hashCode) enough

omit [DecidableEq Key] in
theorem ohHashMapAdd_eq (consistent : Consistent info keyOf)
    (represents : Represents info keyOf tab contents chains) {node : Node} {hashCode fuel : Nat}
    (isHash : info.hashIndex (info.keyHash (keyOf node)) = some hashCode)
    (unlinked : tab.next node = none) (enough : (chains hashCode).length < fuel) :
    ohHashMapAdd info tab fuel node =
      match contents (keyOf node) with
      | some _ => some (tab, -1)
      | none => some ({ buckets := update tab.buckets hashCode (some node)
                        next := update tab.next node (tab.buckets hashCode) }, 0) := by
  have find : (chains hashCode).find? (fun other => info.nodeCompare other node = 0) =
      contents (keyOf node) := represents.find_eq isHash fun other => decide_eq_true_iff.trans
        (consistent.nodeCompare other node)
  have search : getHashNodeByNode info tab fuel (tab.buckets hashCode) node =
      some (contents (keyOf node)) :=
    find ▸ findNode_of_threads (represents.threads hashCode) enough
  unfold ohHashMapAdd
  rw [if_neg (by rw [unlinked]; exact nofun), consistent.nodeHash, isHash, bind_some, search]
  cases contents (keyOf node) with
  | none => rfl
  | some other => rfl

omit [DecidableEq Node] [DecidableEq Key] in
theorem eq_of_ohHashMapGet (consistent : Consistent info keyOf)
    (represents : Represents info keyOf tab contents chains) {key : Key} {fuel : Nat}
    {found : Option Node} (result : ohHashMapGet info tab fuel key = some found) :
    found = contents key := by
  obtain ⟨hashCode, isHash, search⟩ := bind_eq_some_iff.mp result
  have whole := ohHashMapGet_eq consistent represents isHash
    (Nat.lt_of_lt_of_le (Nat.lt_succ_self _) (Nat.le_max_right fuel _))
  have later : ohHashMapGet info tab (max fuel ((chains hashCode).length + 1)) key = some found :=
    bind_eq_some_iff.mpr ⟨hashCode, isHash, findNode_mono search (Nat.le_max_left _ _)⟩
  exact some.inj (later.symm.trans whole)

theorem represents_of_ohHashMapAdd (consistent : Consistent info keyOf)
    (represents : Represents info keyOf tab contents chains) {node : Node} {fuel : Nat}
    {after : HashTab Node} {ret : Int}
    (absent : contents (keyOf node) = none) (unlinked : tab.next node = none)
    (result : ohHashMapAdd info tab fuel node = some (after, ret)) :
    ret = 0 ∧ ∃ hashCode, info.hashIndex (info.keyHash (keyOf node)) = some hashCode ∧
      Represents info keyOf after (update contents (keyOf node) (some node))
        (update chains hashCode (node :: chains hashCode)) := by
  have taken : step info fuel tab (.add node) = some (after, .code ret) :=
    map_eq_some_iff.mpr ⟨(after, ret), result, rfl⟩
  have isHash : ∃ hashCode, info.hashIndex (info.keyHash (keyOf node)) = some hashCode := by
    unfold ohHashMapAdd at result
    rw [if_neg (by rw [unlinked]; exact nofun), consistent.nodeHash] at result
    obtain ⟨hashCode, isHash, -⟩ := bind_eq_some_iff.mp result
    exact ⟨hashCode, isHash⟩
  obtain ⟨hashCode, isHash⟩ := isHash
  have whole := ohHashMapAdd_eq consistent represents isHash unlinked
    (Nat.lt_of_lt_of_le (Nat.lt_succ_self _) (Nat.le_max_right fuel _))
  rw [absent] at whole
  have later := step_mono taken (Nat.le_max_left fuel ((chains hashCode).length + 1))
  obtain ⟨both, isBoth, same⟩ := map_eq_some_iff.mp later
  obtain rfl := some.inj (whole.symm.trans isBoth)
  obtain ⟨rfl, isCode⟩ := Prod.mk.inj same
  exact ⟨(Ret.code.inj isCode).symm, hashCode, isHash, represents.add isHash absent⟩

theorem step_of_fits (consistent : Consistent info keyOf)
    (represents : Represents info keyOf tab contents chains)
    (fits : Fits info keyOf tab contents action) :
    ∃ enough next others, (∀ fuel, enough ≤ fuel →
        step info fuel tab action = some (next, (contents.step keyOf action).2)) ∧
      Represents info keyOf next (contents.step keyOf action).1 others := by
  have isIndex := hashIndex_eq_some info fits.hash
  cases action with
  | add node =>
    obtain ⟨hashCode, isHash⟩ := isIndex
    cases present : contents (keyOf node) with
    | some other =>
      rw [Contents.step_add_of_some present]
      refine ⟨(chains hashCode).length + 1, tab, chains, fun fuel enough => ?_, represents⟩
      refine map_eq_some_iff.mpr ⟨(tab, -1), ?_, rfl⟩
      cases unlinked : tab.next node with
      | some linked =>
        unfold ohHashMapAdd
        rw [if_pos (by rw [unlinked]; rfl)]
      | none =>
        rw [ohHashMapAdd_eq consistent represents isHash unlinked enough, present]
    | none =>
      have unlinked : tab.next node = none :=
        fits.2.resolve_right (by rw [present]; exact nofun)
      rw [Contents.step_add_of_none present]
      refine ⟨(chains hashCode).length + 1, _, _, fun fuel enough => ?_,
        represents.add isHash present⟩
      refine map_eq_some_iff.mpr ⟨(_, 0), ?_, rfl⟩
      rw [ohHashMapAdd_eq consistent represents isHash unlinked enough, present]
  | remove key =>
    obtain ⟨hashCode, isHash⟩ := isIndex
    have threads := represents.threads hashCode
    have equal_iff : ∀ node, info.keyCompare node key = 0 ↔ keyOf node = key :=
      fun node => consistent.keyCompare node key
    dsimp only [Contents.step]
    cases present : contents key with
    | none =>
      have absent : ∀ node ∈ chains hashCode, info.keyCompare node key ≠ 0 := by
        intro node member holds
        have inMap := (represents.mem_iff node).mpr ⟨hashCode, member⟩
        rw [(equal_iff node).mp holds, present] at inMap
        exact absurd inMap nofun
      refine ⟨(chains hashCode).length + 1, tab, chains, fun fuel enough => ?_, ?_⟩
      · refine map_eq_some_iff.mpr ⟨tab, ?_, rfl⟩
        refine bind_eq_some_iff.mpr ⟨hashCode, isHash, ?_⟩
        exact removeLoop_of_absent threads absent enough
      · rw [← present, Function.update_eq_self]
        exact represents
    | some node =>
      have member := represents.mem_chain isHash present
      obtain ⟨front, back, chain⟩ := append_of_mem member
      have distinct := threads.nodup
      rw [chain] at threads distinct
      have before : ∀ other ∈ front, info.keyCompare other key ≠ 0 := by
        intro other inFront holds
        have inChain : other ∈ chains hashCode := chain ▸ mem_append_left _ inFront
        have itself := represents.eq_of_key inChain
          ((equal_iff other).mp holds ▸ present)
        exact (nodup_cons.mp (nodup_middle.mp distinct)).1
          (mem_append_left _ (itself ▸ inFront))
      refine ⟨front.length + 1, _, _, fun fuel enough => ?_,
        represents.remove isHash present chain⟩
      refine map_eq_some_iff.mpr ⟨_, ?_, rfl⟩
      refine bind_eq_some_iff.mpr ⟨hashCode, isHash, ?_⟩
      exact removeLoop_of_found threads before
        ((equal_iff node).mpr (represents.keyed key node present)) enough
  | get key =>
    obtain ⟨hashCode, isHash⟩ := isIndex
    refine ⟨(chains hashCode).length + 1, tab, chains, fun fuel enough => ?_, represents⟩
    exact map_eq_some_iff.mpr
      ⟨contents key, ohHashMapGet_eq consistent represents isHash enough, rfl⟩

theorem fits_of_step (consistent : Consistent info keyOf)
    (represents : Represents info keyOf tab contents chains) {fuel : Nat} {next : HashTab Node}
    (taken : step info fuel tab action = some (next, (contents.step keyOf action).2)) :
    Fits info keyOf tab contents action := by
  cases action with
  | add node =>
    obtain ⟨⟨after, value⟩, added, same⟩ := map_eq_some_iff.mp taken
    have isValue : Ret.code value = (contents.step keyOf (.add node)).2 := congrArg Prod.snd same
    unfold ohHashMapAdd at added
    cases present : contents (keyOf node) with
    | some other =>
      obtain ⟨hashCode, member⟩ := (represents.mem_iff other).mp
        ((represents.keyed _ _ present).symm ▸ present)
      have home := represents.home hashCode other member
      rw [represents.keyed _ _ present] at home
      exact ⟨ne_minValue_of_hashIndex home, .inr (present ▸ rfl)⟩
    | none =>
      rw [Contents.step_add_of_none present] at isValue
      obtain rfl : value = 0 := Ret.code.inj isValue
      split at added
      · exact absurd (congrArg Prod.snd (some.inj added)) (show (-1 : Int) ≠ 0 by decide)
      rename_i unlinked
      obtain ⟨hashCode, isHash, -⟩ := bind_eq_some_iff.mp added
      refine ⟨ne_minValue_of_hashIndex (consistent.nodeHash node ▸ isHash), .inl ?_⟩
      exact Option.not_isSome_iff_eq_none.mp unlinked
  | remove key =>
    obtain ⟨after, removed, -⟩ := map_eq_some_iff.mp taken
    obtain ⟨hashCode, isHash, -⟩ := bind_eq_some_iff.mp removed
    exact ne_minValue_of_hashIndex isHash
  | get key =>
    obtain ⟨found, search, -⟩ := map_eq_some_iff.mp taken
    obtain ⟨hashCode, isHash, -⟩ := bind_eq_some_iff.mp search
    exact ne_minValue_of_hashIndex isHash

end Calls

/-! ### The map over a whole sequence of calls -/

section Sequences

variable [DecidableEq Node] [DecidableEq Key] {info : HashInfo Node Key} {keyOf : Node → Key}

theorem run_refines_iff (consistent : Consistent info keyOf) (actions : List (Action Node Key)) :
    ∀ {tab : HashTab Node} {contents : Contents Node Key} {chains : Nat → List Node},
      Represents info keyOf tab contents chains →
        ((∃ enough, ∀ fuel, enough ≤ fuel →
            run info fuel tab actions = some (Contents.run keyOf contents actions)) ↔
          AllFit info keyOf tab contents actions) := by
  induction actions with
  | nil => exact fun _ => iff_of_true ⟨0, fun _ _ => rfl⟩ trivial
  | cons action rest hypothesis =>
    intro tab contents chains represents
    constructor
    · rintro ⟨enough, refines⟩
      have first := refines enough (Nat.le_refl _)
      obtain ⟨⟨next, ret⟩, taken, remaining⟩ := bind_eq_some_iff.mp first
      obtain ⟨rets, -, isRets⟩ := map_eq_some_iff.mp remaining
      obtain ⟨isRet, -⟩ := cons_eq_cons.mp isRets
      have fits := fits_of_step consistent represents (isRet ▸ taken)
      obtain ⟨least, after, others, steps, represents'⟩ := step_of_fits consistent represents fits
      refine ⟨fits, fun fuel next ret taken => ?_⟩
      have isAfter := (step_mono taken (Nat.le_max_left fuel least)).symm.trans
        (steps _ (Nat.le_max_right fuel least))
      obtain rfl : next = after := congrArg Prod.fst (some.inj isAfter)
      refine (hypothesis represents').mp ⟨max enough least, fun more isMore => ?_⟩
      have whole := refines more (by omega)
      unfold run at whole
      rw [steps more (by omega)] at whole
      obtain ⟨rets, isRest, isRets⟩ := map_eq_some_iff.mp whole
      rw [isRest, (cons_eq_cons.mp isRets).2]
    · rintro ⟨fits, others⟩
      obtain ⟨least, after, chains', steps, represents'⟩ := step_of_fits consistent represents fits
      obtain ⟨enough, refines⟩ := (hypothesis represents').mpr
        (others least after _ (steps least (Nat.le_refl _)))
      refine ⟨max least enough, fun fuel isFuel => ?_⟩
      unfold run
      rw [steps fuel (by omega)]
      exact congrArg (Option.map _) (refines fuel (by omega))

/-- From a created map on, a sequence of calls returns what the finite map returns exactly when
every call fits: no hash is the smallest `int`, and whenever a node is added whose key is not in
the map, it carries no link, so that it is new, was cleared, or was the last one of its bucket when
it was removed. -/
theorem map_refines_iff (consistent : Consistent info keyOf) {tab : HashTab Node}
    (created : tab.Created) (actions : List (Action Node Key)) : (∃ enough, ∀ fuel, enough ≤ fuel →
        run info fuel tab actions = some (Contents.run keyOf (fun _ => none) actions)) ↔
      AllFit info keyOf tab (fun _ => none) actions :=
  run_refines_iff consistent actions (represents_created created)

end Sequences

/-- Numbers that are their own keys, all with one negative hash. -/
def sampleInfo : HashInfo Nat Nat where
  nodeCompare node other := if node = other then 0 else 1
  keyCompare node key := if node = key then 0 else 1
  nodeHash _ := -7
  keyHash _ := -7
  maxBucket := 4

def sampleTab : HashTab Nat where
  buckets _ := none
  next _ := none

theorem sampleInfo_consistent : Consistent sampleInfo id where
  nodeCompare node other := by
    by_cases same : node = other <;> simp [sampleInfo, same]
  keyCompare node key := by
    by_cases same : node = key <;> simp [sampleInfo, same]
  nodeHash _ := rfl

theorem map_refines_iff_sample : (∃ enough, ∀ fuel, enough ≤ fuel →
        run sampleInfo fuel sampleTab [.add 1, .add 2, .remove 1, .add 1, .get 1] =
          some [.code 0, .code 0, .done, .code 0, .node (some 1)]) ↔
      AllFit sampleInfo id sampleTab (fun _ => none) [.add 1, .add 2, .remove 1, .add 1, .get 1] :=
  map_refines_iff sampleInfo_consistent (fun _ => rfl) [.add 1, .add 2, .remove 1, .add 1, .get 1]

/-- A node that was not the last one of its bucket keeps its link when it is removed, and is not
added again although its key is gone. -/
theorem removed_node_refused : (Consistent sampleInfo id ∧ sampleTab.Created) ∧
      run sampleInfo 8 sampleTab [.add 1, .add 2, .remove 2, .get 2, .add 2] =
        some [.code 0, .code 0, .done, .node none, .code (-1)] ∧
      Contents.run id (fun _ => (none : Option Nat)) [.add 1, .add 2, .remove 2, .get 2, .add 2] =
        [.code 0, .code 0, .done, .node none, .code 0] :=
  ⟨⟨sampleInfo_consistent, fun _ => rfl⟩, by decide, by decide⟩

end TowerSafe.HashMap
