/-
This file is a small library of intrusive lists. Every node carries one link field, so a node
is in at most one list of the family and at most once; the family keeps this as a field, next
to the list a node's links belong to. The operations are total: pushing a node that is already
linked and removing a node that is not linked leave the family alone, and it is the caller who
has to notice that. What an operation does to a node is read off the list the node belongs to.
-/

import Mathlib.Data.List.Nodup
import Mathlib.Logic.Function.Basic

namespace TowerSafe.Library

/-- A family of lists threaded through the one link field of each node. -/
structure Chains (Head Node : Type) where
  /-- The nodes of a list, first to last. -/
  nodes : Head → List Node
  /-- The list the links of a node belong to. -/
  home : Node → Option Head
  mem_iff : ∀ node head, node ∈ nodes head ↔ home node = some head
  nodup : ∀ head, (nodes head).Nodup

namespace Chains

variable {Head Node : Type} (chains : Chains Head Node) {head other : Head} {node : Node}

def first (head : Head) : Option Node :=
  (chains.nodes head).head?

theorem home_of_first (found : chains.first head = some node) : chains.home node = some head :=
  (chains.mem_iff node head).mp (List.mem_of_mem_head? found)

theorem nodes_eq_nil_iff : chains.nodes head = [] ↔ ∀ node, chains.home node ≠ some head := by
  rw [List.eq_nil_iff_forall_not_mem]
  exact forall_congr' fun node => not_congr (chains.mem_iff node head)

theorem first_eq_none_iff : chains.first head = none ↔ ∀ node, chains.home node ≠ some head := by
  rw [first, List.head?_eq_none_iff, nodes_eq_nil_iff]

variable [DecidableEq Node]

/-- Take a node out of the list it is linked in. -/
def remove (node : Node) : Chains Head Node where
  nodes head := (chains.nodes head).erase node
  home := Function.update chains.home node none
  mem_iff := by
    intro one list
    rw [(chains.nodup list).mem_erase_iff, chains.mem_iff]
    by_cases itself : one = node <;> simp [itself]
  nodup := fun list => (chains.nodup list).erase node

@[simp]
theorem remove_home : (chains.remove node).home = Function.update chains.home node none := rfl

variable [DecidableEq Head]

/-- Give a node that is not linked a place in a list, at the position `insert` puts it. -/
def link (head : Head) (node : Node) (insert : List Node → List Node)
    (same : ∀ nodes, (insert nodes).Perm (node :: nodes)) : Chains Head Node :=
  if free : chains.home node = none then
    { nodes := Function.update chains.nodes head (insert (chains.nodes head))
      home := Function.update chains.home node (some head)
      mem_iff := by
        intro one list
        have old := chains.mem_iff one list
        by_cases here : list = head
        · subst here
          by_cases itself : one = node
          · simp [itself, (same _).mem_iff]
          · simp [itself, (same _).mem_iff, old]
        · by_cases itself : one = node
          · subst itself
            simp [here, old, free, Ne.symm here]
          · simp [here, itself, old]
      nodup := by
        intro list
        by_cases here : list = head
        · subst here
          have fresh : node ∉ chains.nodes list := by simp [chains.mem_iff, free]
          simp [(same _).nodup_iff, fresh, chains.nodup]
        · simp [here, chains.nodup] }
  else chains

def pushFront (head : Head) (node : Node) : Chains Head Node :=
  chains.link head node (node :: ·) fun _ => .refl _

/-- Link a node in as the last of a list. -/
def pushBack (head : Head) (node : Node) : Chains Head Node :=
  chains.link head node (· ++ [node]) fun _ => List.perm_append_singleton _ _

theorem link_home (insert : List Node → List Node)
    (same : ∀ nodes, (insert nodes).Perm (node :: nodes)) :
    (chains.link head node insert same).home =
      if chains.home node = none then Function.update chains.home node (some head)
      else chains.home := by
  rw [link]
  split <;> rfl

@[simp]
theorem pushFront_home : (chains.pushFront head node).home =
    if chains.home node = none then Function.update chains.home node (some head) else chains.home :=
  chains.link_home _ _

@[simp]
theorem pushBack_home : (chains.pushBack head node).home =
    if chains.home node = none then Function.update chains.home node (some head) else chains.home :=
  chains.link_home _ _

end Chains

end TowerSafe.Library
