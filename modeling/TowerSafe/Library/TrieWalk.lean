/-
This file goes through the nodes of a trie with search trees of siblings in the order of a
traversal: a node, what is below it, the siblings on its left and those on its right. The rules say
that a walk meets exactly the paths that can be looked up, each of them once.
-/

import Mathlib.Data.List.Nodup
import TowerSafe.Library.SearchTrie

namespace TowerSafe.Library.SearchTrie

open List

variable {Key Data : Type}

/-- The paths of the nodes, with their data. -/
def walk : SearchTrie Key Data → List (List Key × Data)
  | leaf => []
  | node key data left right child =>
      ([key], data) :: ((walk child).map fun visit => (key :: visit.1, visit.2)) ++
        walk left ++ walk right

variable {cmp : Key → Key → Ordering} {trie left right child : SearchTrie Key Data}
  {key first : Key} {data found : Data} {path rest : List Key}

theorem head_mem_keys (member : (path, found) ∈ trie.walk) :
    ∃ first rest, path = first :: rest ∧ first ∈ trie.keys := by
  induction trie generalizing path with
  | leaf => exact nomatch member
  | node key data left right child leftHypothesis rightHypothesis =>
    rw [walk, mem_append, mem_append, mem_cons, mem_map] at member
    rcases member with ((here | ⟨visit, -, same⟩) | onLeft) | onRight
    · obtain ⟨rfl, -⟩ := Prod.mk.inj here
      exact ⟨key, [], rfl, mem_cons_self⟩
    · obtain ⟨rfl, -⟩ := Prod.mk.inj same
      exact ⟨key, visit.1, rfl, mem_cons_self⟩
    · obtain ⟨first, rest, rfl, inside⟩ := leftHypothesis onLeft
      exact ⟨first, rest, rfl, mem_cons_of_mem key (mem_append_left _ inside)⟩
    · obtain ⟨first, rest, rfl, inside⟩ := rightHypothesis onRight
      exact ⟨first, rest, rfl, mem_cons_of_mem key (mem_append_right _ inside)⟩

theorem lookup_node (first : Key) (rest : List Key) :
    (node key data left right child).lookup cmp (first :: rest) =
      match cmp key first with
      | .eq => if rest = [] then some data else child.lookup cmp rest
      | .lt => left.lookup cmp (first :: rest)
      | .gt => right.lookup cmp (first :: rest) := by
  cases rest with
  | nil =>
    rw [lookup, lookup, find]
    cases cmp key first <;> rfl
  | cons second rest =>
    rw [lookup, find]
    cases cmp key first <;> rfl

theorem mem_walk_node : (first :: rest, found) ∈ (node key data left right child).walk ↔
      (first = key ∧ (rest = [] ∧ found = data ∨ (rest, found) ∈ child.walk)) ∨
        (first :: rest, found) ∈ left.walk ∨ (first :: rest, found) ∈ right.walk := by
  rw [walk, mem_append, mem_append, mem_cons, mem_map, or_assoc]
  refine or_congr_left ⟨?_, ?_⟩
  · rintro (here | ⟨visit, below, same⟩)
    · obtain ⟨path, rfl⟩ := Prod.mk.inj here
      obtain ⟨rfl, rfl⟩ := List.cons.inj path
      exact ⟨rfl, .inl ⟨rfl, rfl⟩⟩
    · obtain ⟨path, rfl⟩ := Prod.mk.inj same
      obtain ⟨rfl, rfl⟩ := List.cons.inj path
      exact ⟨rfl, .inr below⟩
  · rintro ⟨rfl, ⟨rfl, rfl⟩ | below⟩
    · exact .inl rfl
    · exact .inr ⟨(rest, found), below, rfl⟩

theorem Sorted.mem_walk (lawful : ∀ first second, cmp first second = .eq ↔ first = second)
    (sorted : trie.Sorted cmp) : (path, found) ∈ trie.walk ↔ trie.lookup cmp path = some found := by
  induction trie generalizing path with
  | leaf =>
    rw [lookup_leaf]
    exact iff_of_false not_mem_nil nofun
  | node key data left right child leftHypothesis rightHypothesis childHypothesis =>
    obtain ⟨less, greater, leftSorted, rightSorted, childSorted⟩ := sorted
    cases path with
    | nil =>
      refine iff_of_false (fun member => ?_) nofun
      obtain ⟨first, rest, same, -⟩ := head_mem_keys member
      exact nomatch same
    | cons first rest =>
      have onLeft : (first :: rest, found) ∈ left.walk → cmp key first = .lt := fun member => by
        obtain ⟨_, _, same, inside⟩ := head_mem_keys member
        exact (List.cons.inj same).1 ▸ less _ inside
      have onRight : (first :: rest, found) ∈ right.walk → cmp key first = .gt := fun member => by
        obtain ⟨_, _, same, inside⟩ := head_mem_keys member
        exact (List.cons.inj same).1 ▸ greater _ inside
      have onChild : (rest, found) ∈ child.walk → rest ≠ [] := fun member empty => by
        obtain ⟨_, _, same, -⟩ := head_mem_keys member
        exact nomatch empty.symm.trans same
      rw [mem_walk_node, lookup_node]
      cases order : cmp key first with
      | eq =>
        rw [order] at onLeft onRight
        have same : first = key := ((lawful key first).mp order).symm
        rw [or_iff_left (fun either => either.elim (fun member => nomatch onLeft member)
          fun member => nomatch onRight member), and_iff_right same]
        by_cases last : rest = []
        · rw [if_pos last, and_iff_right last, or_iff_left fun member => onChild member last,
            Option.some.injEq, eq_comm]
        · rw [if_neg last, or_iff_right fun both => last both.1, childHypothesis childSorted]
      | lt =>
        rw [order] at onRight
        have apart : first ≠ key := fun same => by
          rw [same, (lawful key key).mpr rfl] at order
          exact nomatch order
        rw [or_iff_right fun both => apart both.1, or_iff_left fun member => nomatch onRight member]
        exact leftHypothesis leftSorted
      | gt =>
        rw [order] at onLeft
        have apart : first ≠ key := fun same => by
          rw [same, (lawful key key).mpr rfl] at order
          exact nomatch order
        rw [or_iff_right fun both => apart both.1, or_iff_right fun member => nomatch onLeft member]
        exact rightHypothesis rightSorted

theorem order_of_mem_walk {order : Ordering} (all : ∀ other ∈ trie.keys, cmp key other = order)
    (member : path ∈ trie.walk.map Prod.fst) :
    ∃ first rest, path = first :: rest ∧ cmp key first = order := by
  obtain ⟨visit, inside, rfl⟩ := mem_map.mp member
  obtain ⟨first, rest, same, isKey⟩ := head_mem_keys inside
  exact ⟨first, rest, same, all first isKey⟩

theorem Sorted.nodup_walk (lawful : ∀ first second, cmp first second = .eq ↔ first = second)
    (sorted : trie.Sorted cmp) : (trie.walk.map Prod.fst).Nodup := by
  induction trie with
  | leaf => exact nodup_nil
  | node key data left right child leftHypothesis rightHypothesis childHypothesis =>
    obtain ⟨less, greater, leftSorted, rightSorted, childSorted⟩ := sorted
    have self : cmp key key = .eq := (lawful key key).mpr rfl
    have below : (child.walk.map fun visit => key :: visit.1).Nodup := by
      have whole := (childHypothesis childSorted).map (cons_injective (a := key))
      rwa [map_map] at whole
    have here : [key] ∉ child.walk.map fun visit => key :: visit.1 := fun member => by
      obtain ⟨visit, inside, same⟩ := mem_map.mp member
      obtain ⟨_, _, path, -⟩ := head_mem_keys inside
      exact nomatch path.symm.trans (List.cons.inj same).2
    have begins : ∀ path ∈ [key] :: child.walk.map (fun visit => key :: visit.1),
        ∃ rest, path = key :: rest := fun path member => by
      rcases mem_cons.mp member with rfl | inside
      · exact ⟨[], rfl⟩
      · obtain ⟨visit, -, rfl⟩ := mem_map.mp inside
        exact ⟨visit.1, rfl⟩
    rw [walk, map_append, map_append, map_cons, map_map]
    refine nodup_append.mpr ⟨nodup_append.mpr ⟨nodup_cons.mpr ⟨here, below⟩,
      leftHypothesis leftSorted, fun path member other onLeft same => ?_⟩,
      rightHypothesis rightSorted, fun path member other onRight same => ?_⟩
    · obtain ⟨rest, rfl⟩ := begins path member
      obtain ⟨first, _, rfl, order⟩ := order_of_mem_walk less onLeft
      obtain ⟨rfl, -⟩ := List.cons.inj same
      exact nomatch self.symm.trans order
    · obtain ⟨first, _, rfl, order⟩ := order_of_mem_walk greater onRight
      rcases mem_append.mp member with atNode | onLeft
      · obtain ⟨rest, rfl⟩ := begins path atNode
        obtain ⟨rfl, -⟩ := List.cons.inj same
        exact nomatch self.symm.trans order
      · obtain ⟨_, _, rfl, order'⟩ := order_of_mem_walk less onLeft
        obtain ⟨rfl, -⟩ := List.cons.inj same
        exact nomatch order'.symm.trans order

/-! ### What is below a path -/

/-- The siblings are those below a path from the root. -/
def Under (cmp : Key → Key → Ordering) (root : SearchTrie Key Data) (above : List Key)
    (siblings : SearchTrie Key Data) : Prop :=
  ∀ rest, rest ≠ [] → root.lookup cmp (above ++ rest) = siblings.lookup cmp rest

variable {root siblings : SearchTrie Key Data} {above : List Key}

theorem Under.refl (root : SearchTrie Key Data) : Under cmp root [] root := fun _ _ => rfl

section

variable (lawful : ∀ first second, cmp first second = .eq ↔ first = second)
include lawful

theorem Under.lookup_key (under : Under cmp root above siblings) (sorted : siblings.Sorted cmp)
    (below : Below siblings (node key data left right child)) :
    root.lookup cmp (above ++ [key]) = some data := by
  rw [under [key] (cons_ne_nil _ _), sorted.lookup_key lawful below]

theorem Under.of_below (under : Under cmp root above siblings) (sorted : siblings.Sorted cmp)
    (below : Below siblings (node key data left right child)) :
    Under cmp root (above ++ [key]) child := fun rest more => by
  rw [append_assoc, under ([key] ++ rest) (cons_ne_nil _ _), singleton_append,
    lookup_cons more, sorted.find_key lawful below]
  rfl

end

end TowerSafe.Library.SearchTrie
