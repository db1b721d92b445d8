/-
This file settles where the search for a node of a configuration stops. The nodes lie in memory in
the order of the byte code, which is the order in which the tree is read with every parent before
its children, and the walk over children, siblings and parents steps from every node to the one
behind it. So a search from a node finds the first match from there to the end of the whole tree,
and is confined to the nodes below its start only where they have a match or nothing behind them
has one.
-/

import TowerSafe.Hdf.HcsTree

namespace TowerSafe.Hcs

open Library Option
open Sbuf (Target CString)
open List

/-! ### The search -/

section

variable (byteAlign : Bool) (blob : Bytes) (memory : Nat → BitVec 8)
variable (nodes : List DeviceResourceNode)

def childrenOf (index : Nat) : List Nat := ((nodes[index]?).map DeviceResourceNode.child).getD []

def parentOf (index : Nat) : Option Nat := (nodes[index]?).bind DeviceResourceNode.parent

/-- The `sibling` of a node: the one behind it among the children of its parent. -/
def siblingOf (index : Nat) : Option Nat := do
  let parent ← parentOf nodes index
  ((childrenOf nodes parent).dropWhile (· ≠ index))[1]?

/-- `TraverseTreeNode`, in so many turns. -/
def traverseTreeNode : Nat → Nat → Option (Option Nat)
  | 0, _ => none
  | turns + 1, index =>
    match parentOf nodes index, siblingOf nodes index with
    | some parent, none => traverseTreeNode turns parent
    | _, sibling => some sibling

/-- The next value of `curNode`. -/
def nextNode (index : Nat) : Option (Option Nat) :=
  match childrenOf nodes index with
  | child :: _ => some (some child)
  | [] => traverseTreeNode nodes nodes.length index

def searchLoop (found : DeviceResourceNode → Bool) : Nat → Option Nat → Option (Option Nat)
  | 0, _ => none
  | _ + 1, none => some none
  | turns + 1, some curNode => do
    let node ← nodes[curNode]?
    if found node then some (some curNode)
    else do
      let next ← nextNode nodes curNode
      searchLoop found turns next

/-- The nodes from one on down, to so many levels, with every parent before its children. -/
def preorder : Nat → Nat → List Nat
  | 0, _ => []
  | levels + 1, index => index :: (childrenOf nodes index).flatMap (preorder levels)

def subtree (index : Nat) : List Nat := preorder nodes nodes.length index

end

/-! ### The walk -/

section

variable {byteAlign : Bool} {nodes : List DeviceResourceNode} {treeStart : Nat}
variable {offset parent first : Nat} {before : List Nat}

/-- A place in the order of the nodes, if there is a node. -/
def within (nodes : List DeviceResourceNode) (index : Nat) : Option Nat :=
  if index < nodes.length then some index else none

theorem within_of_lt {index : Nat} (inside : index < nodes.length) :
    within nodes index = some index :=
  if_pos inside

theorem Items.head?_children (items : Items) (first : Nat) :
    (items.children first).head? = if 0 < items.count then some first else none := by
  induction items with
  | nil => rfl
  | attr name value rest hypothesis => exact hypothesis
  | node name content rest _ _ =>
    rw [children, List.head?_cons, if_pos (by rw [count]; omega)]

/-- A content lies at an index, as the last children of a node, and the climb from that node ends
behind the content. -/
structure Placed (byteAlign : Bool) (treeStart : Nat) (nodes : List DeviceResourceNode)
    (items : Items) (offset parent first : Nat) (before : List Nat) : Prop where
  laid : ∃ front back, front.length = first ∧
    nodes = front ++ (items.nodes byteAlign treeStart offset parent first ++ back)
  children : childrenOf nodes parent = before ++ items.children first
  earlier : ∀ index ∈ before, index < first
  parent_lt : parent < first
  climbs : ∀ turns, parent < turns →
    traverseTreeNode nodes turns parent = some (within nodes (first + items.count))

theorem Placed.bound {items : Items}
    (placed : Placed byteAlign treeStart nodes items offset parent first before) :
    first + items.count ≤ nodes.length := by
  obtain ⟨front, back, length, laid⟩ := placed.laid
  have total := congrArg List.length laid
  rw [length_append, length_append, Items.length_nodes] at total
  omega

theorem Placed.attr {name : CString} {value : ConfigValue} {rest : Items}
    (placed : Placed byteAlign treeStart nodes (.attr name value rest) offset parent first before) :
    Placed byteAlign treeStart nodes rest (offset + attrSize byteAlign name value) parent first
      before :=
  ⟨placed.laid, placed.children, placed.earlier, placed.parent_lt, placed.climbs⟩

section

variable {name : CString} {content rest : Items}
variable (placed : Placed byteAlign treeStart nodes (.node name content rest) offset parent first
  before)
include placed

theorem Placed.node : parentOf nodes first = some parent ∧
    childrenOf nodes first = content.children (first + 1) := by
  obtain ⟨front, back, length, laid⟩ := placed.laid
  rw [parentOf, childrenOf, laid, List.getElem?_append_right (Nat.le_of_eq length),
    length, Nat.sub_self]
  exact ⟨rfl, rfl⟩

theorem Placed.climb (turns : Nat) (enough : first < turns) :
    traverseTreeNode nodes turns first = some (within nodes (first + 1 + content.count)) := by
  obtain ⟨turns, rfl⟩ := Nat.exists_eq_add_of_lt (Nat.zero_lt_of_lt enough)
  have sibling : siblingOf nodes first = (rest.children (first + 1 + content.count)).head? := by
    rw [siblingOf, placed.node.1, bind_eq_bind, bind_some, placed.children,
      dropWhile_append_of_pos fun index member =>
        decide_eq_true (placed.earlier index member).ne,
      Items.children, dropWhile_cons_of_neg (by simp)]
    exact List.head?_eq_getElem?.symm
  rw [Items.head?_children] at sibling
  rw [Nat.zero_add, traverseTreeNode, placed.node.1, sibling]
  have bound := placed.bound
  have climbs := placed.climbs turns (by have := placed.parent_lt; omega)
  rw [Items.count] at bound climbs
  by_cases more : 0 < rest.count
  · rw [if_pos more, within_of_lt (by omega)]
  · rw [if_neg more]
    change traverseTreeNode nodes turns parent = _
    rw [climbs, show first + (content.count + 1 + rest.count) = first + 1 + content.count by omega]

theorem Placed.inner :
    Placed byteAlign treeStart nodes content (offset + headSize byteAlign name) first (first + 1)
      [] where
  laid := by
    obtain ⟨front, back, length, laid⟩ := placed.laid
    rw [Items.nodes, cons_append, append_assoc] at laid
    exact ⟨_, _, by rw [length_append, length]; rfl, laid.trans (append_cons _ _ _)⟩
  children := placed.node.2
  earlier := fun _ member => absurd member not_mem_nil
  parent_lt := first.lt_succ_self
  climbs := placed.climb

theorem Placed.following :
    Placed byteAlign treeStart nodes rest
      (offset + headSize byteAlign name + content.size byteAlign) parent
      (first + 1 + content.count) (before ++ [first]) where
  laid := by
    obtain ⟨front, back, length, laid⟩ := placed.laid
    rw [Items.nodes, cons_append, append_assoc, append_cons, ← append_assoc] at laid
    refine ⟨_, _, ?_, laid⟩
    rw [length_append, length_append, length, Items.length_nodes]
    rfl
  children := by
    rw [placed.children, append_assoc]
    rfl
  earlier := by
    intro index member
    rcases mem_append.mp member with member | member
    · have := placed.earlier index member
      omega
    · rw [mem_singleton.mp member]
      omega
  parent_lt := by
    have := placed.parent_lt
    omega
  climbs := by
    intro turns enough
    rw [placed.climbs turns enough, Items.count]
    congr 2
    omega

end

theorem Placed.next_parent {items : Items} {index : Nat}
    (placed : Placed byteAlign treeStart nodes items offset index (index + 1) [])
    (inside : index < nodes.length) : nextNode nodes index = some (within nodes (index + 1)) := by
  have head := Items.head?_children items (index + 1)
  have bound := placed.bound
  rw [nextNode, placed.children, nil_append]
  cases children : items.children (index + 1) with
  | nil =>
    rw [children] at head
    have none : ¬0 < items.count := fun some => by
      rw [if_pos some] at head
      cases head
    rw [placed.climbs _ inside, Nat.eq_zero_of_not_pos none]
  | cons child others =>
    rw [children] at head
    split at head
    · cases head
      rw [within_of_lt (by omega)]
    · cases head

/-- Every node below is at the head of what it contains. -/
theorem Placed.inside {items : Items}
    (placed : Placed byteAlign treeStart nodes items offset parent first before) {index : Nat}
    (least : first ≤ index) (below : index < first + items.count) :
    ∃ content offset, Placed byteAlign treeStart nodes content offset index (index + 1) [] ∧
      index + content.count < nodes.length := by
  induction items generalizing offset parent first before with
  | nil => exact absurd below (Nat.not_lt.mpr least)
  | attr name value rest hypothesis => exact hypothesis placed.attr least below
  | node name content rest contentHypothesis restHypothesis =>
    have bound := placed.bound
    rw [Items.count] at below bound
    rcases Nat.lt_or_ge index (first + 1 + content.count) with inside | behind
    · rcases Nat.eq_or_lt_of_le least with rfl | least
      · exact ⟨content, _, placed.inner, by omega⟩
      · exact contentHypothesis placed.inner least inside
    · exact restHypothesis placed.following behind (by omega)

theorem Placed.next {items : Items}
    (placed : Placed byteAlign treeStart nodes items offset parent first before) {index : Nat}
    (least : first ≤ index) (below : index < first + items.count) :
    nextNode nodes index = some (within nodes (index + 1)) := by
  obtain ⟨_, _, inner, bound⟩ := placed.inside least below
  exact inner.next_parent (by omega)

theorem Placed.flatMap_preorder {items : Items}
    (placed : Placed byteAlign treeStart nodes items offset parent first before) {levels : Nat}
    (enough : nodes.length ≤ first + levels) :
    (items.children first).flatMap (preorder nodes levels) = List.range' first items.count := by
  induction items generalizing offset parent first before levels with
  | nil => rfl
  | attr name value rest hypothesis => exact hypothesis placed.attr enough
  | node name content rest contentHypothesis restHypothesis =>
    have bound := placed.bound
    rw [Items.count] at bound
    obtain ⟨below, rfl⟩ : ∃ below, levels = below + 1 := ⟨levels - 1, by omega⟩
    rw [Items.children, flatMap_cons, restHypothesis placed.following (by omega), preorder,
      placed.node.2, contentHypothesis placed.inner (by omega), ← List.range'_succ, Items.count,
      show first + 1 + content.count = first + (content.count + 1) by omega,
      List.range'_append_1]

theorem Placed.preorder_parent {items : Items} {index : Nat}
    (placed : Placed byteAlign treeStart nodes items offset index (index + 1) [])
    (inside : index < nodes.length) {levels : Nat} (enough : nodes.length ≤ index + levels) :
    preorder nodes levels index = List.range' index (items.count + 1) := by
  obtain ⟨below, rfl⟩ : ∃ below, levels = below + 1 := ⟨levels - 1, by omega⟩
  rw [preorder, placed.children, nil_append, placed.flatMap_preorder (by omega), List.range'_succ]

theorem Placed.preorder {items : Items}
    (placed : Placed byteAlign treeStart nodes items offset parent first before) {index : Nat}
    (least : first ≤ index) (below : index < first + items.count) :
    ∃ size, index + size ≤ nodes.length ∧ 0 < size ∧ ∀ levels, nodes.length ≤ index + levels →
      preorder nodes levels index = List.range' index size := by
  obtain ⟨content, _, inner, bound⟩ := placed.inside least below
  exact ⟨content.count + 1, by omega, Nat.succ_pos _, fun levels enough =>
    inner.preorder_parent (by omega) enough⟩

end

/-! ### Where the searches stop -/

section

variable (tree : ConfigTree) (byteAlign : Bool)

theorem ConfigTree.placed :
    Placed byteAlign hbcHeaderLength (tree.nodes byteAlign) tree.content
      (headSize byteAlign tree.name) 0 1 [] where
  laid := ⟨[_], [], rfl, by rw [append_nil]; rfl⟩
  children := rfl
  earlier := fun _ member => absurd member not_mem_nil
  parent_lt := Nat.one_pos
  climbs := by
    intro turns enough
    obtain ⟨turns, rfl⟩ : ∃ fewer, turns = fewer + 1 := ⟨turns - 1, by omega⟩
    rw [within, if_neg]
    · rfl
    · rw [nodes, length_cons, Items.length_nodes]
      omega

theorem ConfigTree.length_nodes : (tree.nodes byteAlign).length = tree.content.count + 1 := by
  rw [nodes, length_cons, Items.length_nodes]

theorem ConfigTree.next {index : Nat} (inside : index < (tree.nodes byteAlign).length) :
    nextNode (tree.nodes byteAlign) index = some (within (tree.nodes byteAlign) (index + 1)) := by
  have placed := tree.placed byteAlign
  rcases Nat.eq_zero_or_pos index with rfl | positive
  · exact placed.next_parent inside
  · rw [tree.length_nodes byteAlign] at inside
    exact placed.next positive (by omega)

theorem ConfigTree.preorder {index : Nat} (inside : index < (tree.nodes byteAlign).length) :
    ∃ size, index + size ≤ (tree.nodes byteAlign).length ∧ 0 < size ∧
      subtree (tree.nodes byteAlign) index = List.range' index size := by
  have placed := tree.placed byteAlign
  rcases Nat.eq_zero_or_pos index with rfl | positive
  · exact ⟨tree.content.count + 1, by rw [tree.length_nodes]; omega, Nat.succ_pos _,
      placed.preorder_parent inside (by omega)⟩
  · obtain ⟨size, bound, some, below⟩ :=
      placed.preorder positive (by rw [tree.length_nodes] at inside; omega)
    exact ⟨size, bound, some, below _ (by omega)⟩

theorem ConfigTree.searchLoop (found : DeviceResourceNode → Bool) (turns : Nat) {index : Nat}
    (inside : index ≤ (tree.nodes byteAlign).length)
    (enough : (tree.nodes byteAlign).length < index + turns) :
    Hcs.searchLoop (tree.nodes byteAlign) found turns (within (tree.nodes byteAlign) index) =
      some ((List.range' index ((tree.nodes byteAlign).length - index)).find? fun index =>
        ((tree.nodes byteAlign)[index]?).any found) := by
  induction turns generalizing index with
  | zero => omega
  | succ turns hypothesis =>
    rcases Nat.eq_or_lt_of_le inside with rfl | inside
    · rw [within, if_neg (Nat.lt_irrefl _), Nat.sub_self]
      rfl
    have node := List.getElem?_eq_getElem inside
    rw [within_of_lt inside, Hcs.searchLoop, node, bind_eq_bind, bind_some,
      tree.next byteAlign inside, bind_eq_bind, bind_some, hypothesis inside (by omega),
      show (tree.nodes byteAlign).length - index =
        (tree.nodes byteAlign).length - (index + 1) + 1 by omega,
      List.range'_succ, List.find?_cons, node, any_some]
    cases found (tree.nodes byteAlign)[index] <;> rfl

end

/-! ### The order of the hash values -/

section

variable (tree : ConfigTree) (byteAlign : Bool)

variable {blob : Bytes} {memory : Nat → BitVec 8}

end

end TowerSafe.Hcs
