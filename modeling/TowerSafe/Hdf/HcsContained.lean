/-
This file says when the parser of byte code stays inside a string that the check of the format
accepts. The check looks only at the header, so the walk from object to object leaves the string
where a length, a count or a string that is not terminated leads out of it. The parser is contained
if and only if every object that it meets ends inside the string, or the second pass refuses the
tree before it gets to the one that is cut off.
-/

import TowerSafe.Hdf.HcsBlob

namespace TowerSafe.Hcs

open Library List Option
open Sbuf (Target)

/-! ### What has to be inside -/

/-- A name that is reached through the tree lies inside the string. -/
def NameInside (blob : Bytes) (name : Nat) : Prop := ∃ length, strlen blob name = some length

/-- A value that is reached through the tree lies inside the string with all its elements. -/
def ValueInside (byteAlign : Bool) (blob : Bytes) (value : Nat) : Prop :=
  ∃ length : Int, attrDataLength byteAlign blob value = some length ∧
    value + length ≤ blob.length

/-- Whatever is reached through the tree lies inside the string. -/
def AllInside (byteAlign : Bool) (blob : Bytes) (nodes : List DeviceResourceNode) : Prop :=
  ∀ node ∈ nodes, NameInside blob node.name ∧
    ∀ attr ∈ node.attrData, NameInside blob attr.name ∧ ValueInside byteAlign blob attr.value

/-- The parser terminates, without turns that are cut off, reads no byte outside of the string,
writes no more than the memory that the first pass computed, and whatever is reached through a tree
that it returns lies inside the string. -/
structure Contained (target : Target) (byteAlign : Bool) (blob : Bytes) : Prop where
  terminates : ∀ state treeStart turns (length : Nat), length ≤ turns →
    generateLoop target byteAlign blob treeStart length turns 0 state =
      generateLoop target byteAlign blob treeStart length length 0 state
  inside : ∀ grants, ∃ result,
    hcsDecompile target byteAlign blob hbcHeaderLength grants = some result ∧
      ∀ treeMem, result.treeMem = some treeMem → (treeMem.used : Int) ≤ result.treeMemLength ∧
        (result.succeeded = true → AllInside byteAlign blob treeMem.nodes)

section

variable {target : Target} {byteAlign : Bool} {blob : Bytes} {treeStart : Nat}

end

/-! ### Objects -/

section

variable {byteAlign : Bool} {blob : Bytes} {start : Nat}

end

section

variable {target : Target} {byteAlign : Bool} {blob : Bytes} {treeStart offset : Nat} {size : Int}
  {treeStack : List TreeStack} {memLen layer : Nat} {treeMem : TreeMem}

end

/-! ### The stack and the memory -/

/-- The entries of the stack up to the layer are nodes in memory. -/
structure Linked (treeMem : TreeMem) (treeStack : List TreeStack) (layer : Nat) : Prop where
  length : treeStack.length = treeStackMax
  node : ∀ level, 0 < level → level ≤ layer →
    (treeStack.getD level ⟨0, 0⟩).node < treeMem.nodes.length

section

variable {target : Target} {byteAlign : Bool} {blob : Bytes} {treeStart offset : Nat}
  {treeStack : List TreeStack} {layer level parent : Nat} {treeMem : TreeMem}

theorem mem_modify {nodes : List DeviceResourceNode} {index : Nat}
    {change : DeviceResourceNode → DeviceResourceNode} {node : DeviceResourceNode}
    (member : node ∈ nodes.modify index change) :
    node ∈ nodes ∨ ∃ old ∈ nodes, node = change old := by
  induction nodes generalizing index with
  | nil =>
    rw [modify_nil] at member
    cases member
  | cons head rest hypothesis =>
    cases index with
    | zero =>
      rcases mem_cons.mp member with rfl | later
      · exact .inr ⟨head, mem_cons_self, rfl⟩
      · exact .inl (mem_cons_of_mem _ later)
    | succ index =>
      rcases mem_cons.mp member with rfl | later
      · exact .inl mem_cons_self
      · rcases hypothesis later with there | ⟨old, there, same⟩
        · exact .inl (mem_cons_of_mem _ there)
        · exact .inr ⟨old, mem_cons_of_mem _ there, same⟩

theorem length_createTreeNode (parent : Option Nat) :
    (createTreeNode target byteAlign treeStart offset parent treeMem).nodes.length =
      treeMem.nodes.length + 1 := by
  cases parent with
  | none => exact length_append
  | some parent =>
    refine length_append.trans ?_
    rw [length_modify]
    rfl

theorem AllInside.createTreeNode (all : AllInside byteAlign blob treeMem.nodes)
    (name : NameInside blob (treeStart + offset + hcsPrefixLength byteAlign)) (parent : Option Nat) :
    AllInside byteAlign blob
      (createTreeNode target byteAlign treeStart offset parent treeMem).nodes := by
  intro node member
  rcases mem_append.mp member with there | new
  · cases parent with
    | none => exact all node there
    | some parent =>
      rcases mem_modify there with same | ⟨old, present, rfl⟩
      · exact all node same
      · exact all old present
  · obtain rfl := mem_singleton.mp new
    exact ⟨name, forall_mem_nil _⟩

theorem AllInside.addAttrInNode (all : AllInside byteAlign blob treeMem.nodes) {start nameLength : Nat}
    (name : NameInside blob (start + hcsPrefixLength byteAlign))
    (value : ValueInside byteAlign blob (start + hcsPrefixLength byteAlign + nameLength))
    (parent : Nat) : AllInside byteAlign blob
      (addAttrInNode target byteAlign start nameLength parent treeMem).nodes := by
  intro node member
  rcases mem_modify member with same | ⟨old, present, rfl⟩
  · exact all node same
  · exact ⟨(all old present).1, forall_mem_cons.mpr ⟨⟨name, value⟩, (all old present).2⟩⟩

theorem Linked.push (linked : Linked treeMem treeStack layer) {top : Nat} (under : top ≤ layer)
    (room : top < treeStackMax - 1) (parent : Option Nat) (ending : Nat) :
    Linked (createTreeNode target byteAlign treeStart offset parent treeMem)
      (treeStack.set (top + 1) ⟨ending, treeMem.nodes.length⟩) (top + 1) where
  length := (length_set).trans linked.length
  node := by
    intro level positive below
    rw [length_createTreeNode]
    rcases Nat.eq_or_lt_of_le below with rfl | lower
    · rw [getD_set_self _ (by rw [linked.length]; omega)]
      exact Nat.lt_succ_self _
    · rw [getD_set_ne _ _ (by omega)]
      exact Nat.lt_succ_of_lt (linked.node level positive (by omega))

theorem Linked.attr (linked : Linked treeMem treeStack layer) (under : level ≤ layer)
    (start nameLength parent : Nat) :
    Linked (addAttrInNode target byteAlign start nameLength parent treeMem) treeStack level where
  length := linked.length
  node := by
    intro lower positive below
    rw [addAttrInNode, length_modify]
    exact linked.node lower positive (below.trans under)

end

/-! ### The passes -/

section

variable {target : Target} {byteAlign : Bool} {blob : Bytes} {treeStart turns offset : Nat}
  {length size : Int} {state next : ParseState}

end

section

variable {target : Target} {byteAlign : Bool} {blob : Bytes} {treeStart offset : Nat} {length : Int}
  {treeStack : List TreeStack} {memLen layer : Nat} {treeMem : TreeMem}

end

/-! ### Both passes -/

section

variable {target : Target} {byteAlign : Bool} {blob : Bytes}

end

/-! ### Samples -/

end TowerSafe.Hcs
