/-
This file is a small library of singly linked lists that end at a null link and are used as
stacks of free nodes. The nodes of such a list follow from its first node, so a list that ends
visits no node twice; pushing and popping are stated for the links after the update.
-/

import Mathlib.Data.List.Basic
import Mathlib.Logic.Function.Basic

namespace TowerSafe.Library

open List

variable {Node : Type}

/-- The nodes are linked in order from the first one, and the last link is null. -/
def Threads (next : Node → Option Node) : Option Node → List Node → Prop
  | first, [] => first = none
  | first, node :: rest => first = some node ∧ Threads next (next node) rest

namespace Threads

variable {next next' : Node → Option Node} {first : Option Node} {node : Node}
  {nodes others : List Node}

theorem unique (threads : Threads next first nodes) (again : Threads next first others) :
    nodes = others := by
  induction nodes generalizing first others with
  | nil =>
    obtain rfl : first = none := threads
    cases others with
    | nil => rfl
    | cons other rest => exact absurd again.1 nofun
  | cons node rest hypothesis =>
    obtain ⟨rfl, tail⟩ := threads
    cases others with
    | nil => exact absurd again nofun
    | cons other others =>
      obtain ⟨same, tail'⟩ := again
      obtain rfl := Option.some.inj same
      rw [hypothesis tail tail']

theorem drop {front : List Node} (threads : Threads next first (front ++ node :: nodes)) :
    Threads next (some node) (node :: nodes) := by
  induction front generalizing first with
  | nil => exact threads.1 ▸ threads
  | cons other rest hypothesis => exact hypothesis threads.2

section

variable (threads : Threads next first nodes)
include threads

theorem nodup : nodes.Nodup := by
  induction nodes generalizing first with
  | nil => exact nodup_nil
  | cons node rest hypothesis =>
    refine nodup_cons.mpr ⟨fun member => ?_, hypothesis threads.2⟩
    obtain ⟨front, back, rfl⟩ := append_of_mem member
    have again : Threads next (some node) (node :: back) := drop threads.2
    have same := congrArg List.length (unique (threads.1 ▸ threads) again)
    simp only [length_cons, length_append] at same
    omega

theorem congr
    (same : ∀ node ∈ nodes, next' node = next node) : Threads next' first nodes := by
  induction nodes generalizing first with
  | nil => exact threads
  | cons node rest hypothesis =>
    refine ⟨threads.1, ?_⟩
    rw [same node mem_cons_self]
    exact hypothesis threads.2 fun other member =>
      same other (mem_cons_of_mem _ member)

theorem first_eq : first = nodes.head? := by
  cases nodes with
  | nil => exact threads
  | cons other rest => exact threads.1

theorem link_eq {index : Nat}
    (here : nodes[index]? = some node) : next node = nodes[index + 1]? := by
  induction nodes generalizing first index with
  | nil => exact absurd here nofun
  | cons other rest hypothesis =>
    cases index with
    | zero =>
      obtain rfl := Option.some.inj here
      rw [threads.2.first_eq, List.head?_eq_getElem?]
      rfl
    | succ index => exact hypothesis threads.2 here

end

theorem first_mem (threads : Threads next (some node) nodes) : node ∈ nodes := by
  cases nodes with
  | nil => exact absurd threads nofun
  | cons other rest =>
    obtain rfl := Option.some.inj threads.1
    exact mem_cons_self

theorem rest (threads : Threads next first nodes) (member : node ∈ nodes) :
    ∃ front back, nodes = front ++ node :: back ∧ Threads next (next node) back := by
  obtain ⟨front, back, rfl⟩ := append_of_mem member
  exact ⟨front, back, rfl, threads.drop.2⟩

theorem pop (threads : Threads next (some node) nodes)
    (same : ∀ other, other ≠ node → next' other = next other) :
    ∃ rest, nodes = node :: rest ∧ Threads next' (next node) rest := by
  have distinct := threads.nodup
  cases nodes with
  | nil => exact absurd threads nofun
  | cons other rest =>
    obtain ⟨head, tail⟩ := threads
    obtain rfl := Option.some.inj head
    refine ⟨rest, rfl, tail.congr fun one member => same one ?_⟩
    rintro rfl
    exact (nodup_cons.mp distinct).1 member

theorem push (threads : Threads next first nodes) (fresh : node ∉ nodes)
    (link : next' node = first) (same : ∀ other, other ≠ node → next' other = next other) :
    Threads next' (some node) (node :: nodes) := by
  refine ⟨rfl, ?_⟩
  rw [link]
  refine threads.congr fun other member => same other ?_
  rintro rfl
  exact fresh member

theorem unlink {front back : List Node} {before : Node}
    (threads : Threads next first (front ++ before :: node :: back))
    (link : next' before = next node) (same : ∀ other, other ≠ before → next' other = next other) :
    Threads next' first (front ++ before :: back) := by
  have distinct := threads.nodup
  induction front generalizing first with
  | nil =>
    obtain ⟨isFirst, -, tail⟩ := threads
    refine ⟨isFirst, ?_⟩
    rw [link]
    refine tail.congr fun other member => same other ?_
    rintro rfl
    exact (nodup_cons.mp distinct).1 (mem_cons_of_mem _ member)
  | cons other rest hypothesis =>
    refine ⟨threads.1, ?_⟩
    have inRest : before ∈ rest ++ before :: node :: back :=
      mem_append_right _ mem_cons_self
    rw [same other fun itself => (nodup_cons.mp distinct).1 (itself ▸ inRest)]
    exact hypothesis threads.2 (nodup_cons.mp distinct).2

end Threads

end TowerSafe.Library
