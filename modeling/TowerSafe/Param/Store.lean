/-
This file shows that the parameter workspace is a finite map from names to values: after any run of
writes and of labels that are added, looking a name up gives the value of its last successful write.
A search that goes astray among the siblings of a node without children ends at a node whose name is
shorter than the name that is looked for, so it finds no parameter. The name `#` is apart: a write
puts it under the root, and a search for it ends at the root.
-/

import TowerSafe.Library.Transition
import TowerSafe.Param.WorkSpace

namespace TowerSafe.Param

open Library List Option
open Function (update update_of_ne update_self)

/-! ### Keys -/

theorem strncmp_eq_iff {first second : CString} (length : first.length = second.length) :
    strncmp first second = .eq ↔ first = second := by
  induction first generalizing second with
  | nil =>
    obtain rfl := eq_nil_of_length_eq_zero length.symm
    exact iff_of_true rfl rfl
  | cons character rest hypothesis =>
    cases second with
    | nil => exact absurd length (by simp)
    | cons other others =>
      rw [strncmp, List.cons.injEq]
      by_cases same : character = other
      · rw [if_pos same, hypothesis (Nat.succ.inj length)]
        exact ⟨fun equal => ⟨same, equal⟩, And.right⟩
      · rw [if_neg same]
        refine iff_of_false ?_ fun both => same both.1
        split <;> exact nofun

/-- Two keys compare equal only if they are the same. -/
theorem compareTrieNode_eq_iff (nodeKey key : CString) :
    compareTrieNode nodeKey key = .eq ↔ nodeKey = key := by
  rw [compareTrieNode]
  split
  · rename_i longer
    exact iff_of_false nofun fun same => by simp [same] at longer
  split
  · rename_i shorter
    exact iff_of_false nofun fun same => by simp [same] at shorter
  · exact strncmp_eq_iff (by omega)

def pathLength (path : List CString) : Nat :=
  (path.map fun part => part.length + 1).sum

theorem subKeys_ne_nil (name : CString) : subKeys name ≠ [] := by
  fun_induction subKeys name with
  | case1 => exact nofun
  | case2 => exact nofun
  | case3 => exact nofun
  | case4 => exact nofun
  | case5 => exact nofun

/-- The name with the parts of a path. -/
def joinKeys : List CString → CString
  | [] => []
  | [part] => part
  | part :: second :: rest => part ++ '.' :: joinKeys (second :: rest)

theorem joinKeys_cons {part : CString} {parts : List CString} (more : parts ≠ []) :
    joinKeys (part :: parts) = part ++ '.' :: joinKeys parts := by
  cases parts with
  | nil => exact absurd rfl more
  | cons => rfl

theorem joinKeys_cons_cons (character : Char) (part : CString) (parts : List CString) :
    joinKeys ((character :: part) :: parts) = character :: joinKeys (part :: parts) := by
  cases parts <;> rfl

theorem joinKeys_subKeys {name : CString} (proper : name.getLast? ≠ some '.') :
    joinKeys (subKeys name) = name := by
  fun_induction subKeys name with
  | case1 => rfl
  | case2 => exact absurd rfl proper
  | case3 rest more hypothesis =>
    have last : rest.getLast? ≠ some '.' := by
      cases rest with
      | nil => exact absurd rfl more
      | cons => simpa using proper
    rw [joinKeys_cons (subKeys_ne_nil rest), hypothesis last]
    rfl
  | case4 character rest _ _ none hypothesis => exact absurd none (subKeys_ne_nil rest)
  | case5 character rest single dotted part parts found hypothesis =>
    have last : rest.getLast? ≠ some '.' := by
      cases rest with
      | nil => exact nofun
      | cons => simpa using proper
    rw [joinKeys_cons_cons, ← found, hypothesis last]

theorem length_joinKeys (parts : List CString) (more : parts ≠ []) :
    (joinKeys parts).length + 1 = pathLength parts := by
  induction parts with
  | nil => exact absurd rfl more
  | cons part rest hypothesis =>
    by_cases last : rest = []
    · subst last
      rfl
    have length := hypothesis last
    rw [joinKeys_cons last, length_append, length_cons, length]
    simp only [pathLength, map_cons, sum_cons]
    omega

theorem pathLength_subKeys {name : CString} (proper : name.getLast? ≠ some '.') :
    pathLength (subKeys name) = name.length + 1 := by
  rw [← length_joinKeys _ (subKeys_ne_nil name), joinKeys_subKeys proper]

theorem subKeys_injective {first second : CString} (firstProper : first.getLast? ≠ some '.')
    (secondProper : second.getLast? ≠ some '.') (same : subKeys first = subKeys second) :
    first = second := by
  rw [← joinKeys_subKeys firstProper, same, joinKeys_subKeys secondProper]

theorem checkNameChars_cons {character : Char} {rest : CString}
    (chars : checkNameChars (character :: rest) = true) :
    checkNameChars rest = true ∧ (character = '.' → rest.head? ≠ some '.') := by
  rw [checkNameChars.eq_def] at chars
  split at chars
  · rename_i same
    exact absurd same (cons_ne_nil _ _)
  · exact absurd chars nofun
  · rename_i one others dots same
    obtain ⟨rfl, rfl⟩ := List.cons.inj same
    refine ⟨(Bool.and_eq_true_iff.mp chars).2, fun dot next => ?_⟩
    cases rest with
    | nil => exact absurd next nofun
    | cons second rest =>
      obtain rfl := some.inj next
      subst dot
      exact dots rest rfl rfl

theorem subKeys_tail_proper {name : CString} (chars : checkNameChars name = true) :
    (∀ part ∈ (subKeys name).tail, part ≠ []) ∧
      (name ≠ [] → name.head? ≠ some '.' → (subKeys name).head? ≠ some []) := by
  fun_induction subKeys name with
  | case1 => exact ⟨nofun, fun some => absurd rfl some⟩
  | case2 => exact ⟨nofun, fun _ first => absurd rfl first⟩
  | case3 rest more hypothesis =>
    obtain ⟨restChars, apart⟩ := checkNameChars_cons chars
    obtain ⟨tail, head⟩ := hypothesis restChars
    refine ⟨fun part member => ?_, fun _ first => absurd rfl first⟩
    have first := head more (apart rfl)
    cases parts : subKeys rest with
    | nil => exact absurd parts (subKeys_ne_nil rest)
    | cons one others =>
      rw [parts] at member tail first
      rcases mem_cons.mp member with rfl | later
      · exact fun empty => first (congrArg some empty)
      · exact tail part later
  | case4 character rest _ _ none hypothesis => exact absurd none (subKeys_ne_nil rest)
  | case5 character rest single dotted part parts found hypothesis =>
    obtain ⟨tail, -⟩ := hypothesis (checkNameChars_cons chars).1
    rw [found] at tail
    exact ⟨tail, fun _ _ => by simp⟩

theorem subKeys_proper {name : CString} (chars : checkNameChars name = true)
    (first : name.head? ≠ some '.') (more : name ≠ []) : ∀ part ∈ subKeys name, part ≠ [] := by
  obtain ⟨tail, head⟩ := subKeys_tail_proper chars
  have begins := head more first
  cases parts : subKeys name with
  | nil => exact absurd parts (subKeys_ne_nil name)
  | cons one others =>
    rw [parts] at tail begins
    intro part member
    rcases mem_cons.mp member with rfl | later
    · exact fun empty => begins (congrArg some empty)
    · exact tail part later

/-- A name that `CheckParamName` accepts for a parameter. -/
def Accepted (name : CString) : Prop :=
  checkParamName name false = .success

instance (name : CString) : Decidable (Accepted name) := by
  unfold Accepted
  infer_instance

namespace Accepted

variable {name : CString}

section

variable (accepted : Accepted name)
include accepted

theorem length_lt : name.length < 96 := by
  rw [Accepted, checkParamName] at accepted
  split at accepted
  · exact absurd accepted nofun
  · exact Nat.lt_of_not_le ‹_›

theorem chars (named : name ≠ ['#']) :
    name ≠ [] ∧ name.head? ≠ some '.' ∧ name.getLast? ≠ some '.' ∧
      checkNameChars name = true := by
  rw [Accepted, checkParamName] at accepted
  split at accepted
  · exact absurd accepted nofun
  split at accepted
  · exact absurd accepted nofun
  rename_i ends
  split at accepted
  case isFalse => exact absurd accepted nofun
  rename_i chars
  rw [not_or, not_or, not_and] at ends
  exact ⟨fun empty => ends.1 (by simp [empty]), ends.2.1, ends.2.2 rfl, chars⟩

theorem last : name.getLast? ≠ some '.' := by
  by_cases named : name = ['#']
  · subst named
    decide
  · exact (accepted.chars named).2.2.1

theorem parts : ∀ part ∈ subKeys name, part ≠ [] := by
  by_cases named : name = ['#']
  · subst named
    decide
  · obtain ⟨some, first, -, chars⟩ := accepted.chars named
    exact subKeys_proper chars first some

theorem ne_nil : name ≠ [] := by
  by_cases named : name = ['#']
  · subst named
    decide
  · exact (accepted.chars named).1

end

end Accepted

/-! ### Searches -/

theorem findLoop_of_lookup {current : ParamTrie} {path parts : List CString} {label : Nat}
    {indexes : Indexes} (proper : ∀ part ∈ parts, part ≠ []) (more : parts ≠ [])
    (leads : current.child.lookup compareTrieNode parts = some indexes) :
    ∃ found, (findLoop current path label parts).node = some (found, path ++ parts) ∧
      found.data? = some indexes := by
  induction parts generalizing current path label with
  | nil => exact absurd rfl more
  | cons part rest hypothesis =>
    have inner : current.child ≠ .leaf := by
      intro leaf
      rw [leaf, SearchTrie.lookup_leaf] at leads
      cases leads
    rw [findLoop, if_neg (proper part mem_cons_self), if_pos inner, if_pos inner]
    dsimp only
    by_cases last : rest = []
    · subst last
      rw [SearchTrie.lookup] at leads
      cases found : current.child.find compareTrieNode part with
      | leaf =>
        rw [found] at leads
        cases leads
      | node key data left right child =>
        rw [found] at leads
        exact ⟨_, rfl, leads⟩
    · rw [SearchTrie.lookup_cons last] at leads
      cases found : current.child.find compareTrieNode part with
      | leaf =>
        rw [found, SearchTrie.child_leaf, SearchTrie.lookup_leaf] at leads
        cases leads
      | node key data left right child =>
        rw [found] at leads
        obtain ⟨node, ends, data⟩ := @hypothesis (.node key data left right child)
          (path ++ [part]) (if data.labelIndex ≠ 0 then data.labelIndex else label)
          (fun one member => proper one (mem_cons_of_mem _ member)) last leads
        exact ⟨node, ends.trans (by simp), data⟩

/-- Where a search ends that began at a node of a tree of siblings: at the node that the parts lead
to, or at one whose path is shorter. What is known of the nodes below the siblings is known of the
node where it ends. -/
theorem findLoop_ends {siblings : ParamTrie} {key : CString} {data : Indexes}
    {left right child found : ParamTrie} {above path parts : List CString} {label last : Nat}
    {known : List CString → Indexes → Prop} (sorted : siblings.Sorted compareTrieNode)
    (below : SearchTrie.Below siblings (.node key data left right child))
    (knows : ∀ path indexes, siblings.lookup compareTrieNode path = some indexes →
      known path indexes)
    (ends : findLoop (.node key data left right child) (above ++ [key]) label parts =
      ⟨some (found, path), last⟩) :
    ∃ rest indexes, path = above ++ rest ∧ found.data? = some indexes ∧ known rest indexes ∧
      (rest = key :: parts ∨ pathLength rest < pathLength (key :: parts)) := by
  induction parts generalizing siblings key data left right child above label known with
  | nil =>
    obtain ⟨same, -⟩ := Found.mk.inj ends
    obtain ⟨rfl, rfl⟩ := Prod.ext_iff.mp (some.inj same)
    exact ⟨[key], data, rfl, rfl, knows [key] data
      (sorted.lookup_key compareTrieNode_eq_iff below), .inl rfl⟩
  | cons part rest hypothesis =>
    rw [findLoop] at ends
    split at ends
    · cases ends
    dsimp only at ends
    by_cases inner : child = .leaf
    · subst inner
      rw [if_neg (by simp [SearchTrie.child]), dropLast_concat] at ends
      split at ends
      · cases ends
      rename_i one indexes left' right' child' found'
      obtain ⟨rfl, reached⟩ := SearchTrie.below_of_find compareTrieNode_eq_iff found'
      have inside := below.trans reached
      obtain ⟨last, final, rfl, data, knowing, short⟩ := hypothesis sorted inside knows ends
      refine ⟨last, final, rfl, data, knowing, .inr ?_⟩
      have shorter : pathLength (one :: rest) < pathLength (key :: one :: rest) := by
        simp only [pathLength, map_cons, sum_cons]
        omega
      rcases short with rfl | short
      · exact shorter
      · exact Nat.lt_trans short shorter
    · rw [if_pos (show (SearchTrie.node key data left right child).child ≠ _ from inner),
        if_pos (show (SearchTrie.node key data left right child).child ≠ _ from inner)] at ends
      split at ends
      · cases ends
      rename_i one indexes left' right' child' found'
      obtain ⟨rfl, inside⟩ := SearchTrie.below_of_find compareTrieNode_eq_iff
        (show child.find compareTrieNode part = _ from found')
      have knows' : ∀ path indexes, child.lookup compareTrieNode path = some indexes →
          known (key :: path) indexes := fun path indexes holds =>
        knows (key :: path) indexes (sorted.lookup_below compareTrieNode_eq_iff below holds)
      obtain ⟨last, final, rfl, data, knowing, short⟩ :=
        hypothesis (sorted.below below).child inside knows' ends
      refine ⟨key :: last, final, by simp, data, knowing, ?_⟩
      rcases short with rfl | short
      · exact .inl rfl
      · simp only [pathLength, map_cons, sum_cons] at short ⊢
        omega

/-! ### Well-formed workspaces -/

namespace WorkSpace

variable {space next : WorkSpace} {name : CString}

/-- What every workspace keeps: the root has no siblings and no parameter, the siblings are sorted,
a data index is that of the entry with the name that leads there, and entries lie behind the root
in the room that is taken. -/
structure WellFormed (space : WorkSpace) : Prop where
  root : ∃ label child, space.root = .node rootKey ⟨label, 0⟩ .leaf .leaf child
  sorted : space.root.Sorted compareTrieNode
  entries : ∀ path indexes, space.root.lookup compareTrieNode path = some indexes →
    indexes.dataIndex ≠ 0 → ∃ entry, space.entryAt indexes.dataIndex = some entry ∧
      path = rootKey :: subKeys entry.key ∧ Accepted entry.key ∧
        (isReadyOnly entry.key = false → entry.value.length < paramValueLenMax)
  bounded : ∀ offset entry, space.entries offset = some entry → offset < space.currOffset
  positive : 0 < space.currOffset
  room : space.currOffset ≤ space.dataSize

theorem WellFormed.lookup_root (wellFormed : space.WellFormed) (path : List CString)
    (more : path ≠ []) : space.root.lookup compareTrieNode (rootKey :: path) =
      space.root.child.lookup compareTrieNode path := by
  obtain ⟨label, child, root⟩ := wellFormed.root
  have self : compareTrieNode rootKey rootKey = .eq := by decide
  rw [SearchTrie.lookup_cons more, root, SearchTrie.find, self]

theorem WellFormed.findDataIndex_eq (wellFormed : space.WellFormed) (accepted : Accepted name)
    (named : name ≠ ['#']) :
    space.findDataIndex name = (space.nodeAt (subKeys name)).elim 0 Indexes.dataIndex := by
  have unequal : ¬compareTrieNode rootKey name = .eq := fun equal =>
    named ((compareTrieNode_eq_iff _ _).mp equal).symm
  have search : space.findTrieNode_ name =
      findLoop space.root [rootKey] space.rootLabel (subKeys name) := by
    rw [findTrieNode_, if_neg accepted.ne_nil, if_neg unequal]
  have child := wellFormed.lookup_root _ (subKeys_ne_nil name)
  rw [findDataIndex, findTrieNode, search]
  cases leads : space.nodeAt (subKeys name) with
  | some indexes =>
    obtain ⟨found, ends, data⟩ := @findLoop_of_lookup space.root [rootKey] (subKeys name)
      space.rootLabel indexes accepted.parts (subKeys_ne_nil name) (child.symm.trans leads)
    rw [ends]
    dsimp only
    rw [data]
    dsimp only
    by_cases absent : indexes.dataIndex = 0
    · rw [if_neg (fun both => both.1 absent), ends, bind_some, data]
    obtain ⟨entry, entryAt, path, entryAccepted, -⟩ := wellFormed.entries _ _ leads absent
    obtain rfl : name = entry.key :=
      subKeys_injective accepted.last entryAccepted.last (List.cons.inj path).2
    have length := accepted.length_lt
    have keyLength : entry.keyLength = entry.key.length := Nat.mod_eq_of_lt (by omega)
    rw [if_neg (by simp [entryAt, keyLength]), ends, bind_some, data]
  | none =>
    obtain ⟨label, tree, root⟩ := wellFormed.root
    cases ends : findLoop space.root [rootKey] space.rootLabel (subKeys name) with
    | mk node last =>
      cases node with
      | none => rfl
      | some reached =>
        obtain ⟨found, path⟩ := reached
        have sorted := wellFormed.sorted
        rw [root] at ends
        obtain ⟨rest, indexes, -, data, known, short⟩ := @findLoop_ends space.root rootKey
          ⟨label, 0⟩ .leaf .leaf tree found [] path (subKeys name) _ last
          (fun path indexes => space.root.lookup compareTrieNode path = some indexes) sorted
          (root ▸ .refl _) (fun _ _ known => known) ends
        dsimp only
        rw [data]
        dsimp only
        by_cases absent : indexes.dataIndex = 0
        · rw [if_neg (fun both => both.1 absent), bind_some, data]
          exact absent
        obtain ⟨entry, entryAt, path, entryAccepted, -⟩ := wellFormed.entries _ _ known absent
        rcases short with rfl | short
        · exact absurd (known.symm.trans leads) nofun
        have shorter : entry.key.length < name.length := by
          have first := pathLength_subKeys entryAccepted.last
          have second := pathLength_subKeys accepted.last
          rw [path] at short
          simp only [pathLength, map_cons, sum_cons] at short first second
          omega
        have length := accepted.length_lt
        have keyLength : entry.keyLength = entry.key.length := Nat.mod_eq_of_lt (by omega)
        rw [if_pos ⟨absent, by simp [entryAt, keyLength]; omega⟩]
        rfl

theorem WellFormed.findDataIndex_root (wellFormed : space.WellFormed) :
    space.findDataIndex ['#'] = 0 := by
  obtain ⟨label, child, root⟩ := wellFormed.root
  have search : space.findTrieNode_ ['#'] = ⟨some (space.root, [rootKey]), space.rootLabel⟩ := rfl
  rw [findDataIndex, findTrieNode, search]
  simp [root, SearchTrie.data?]

/-- What a workspace looks like after nodes without label and data have been added. -/
structure Extends (space next : WorkSpace) : Prop where
  kept : ∀ path indexes, space.root.lookup compareTrieNode path = some indexes →
    next.root.lookup compareTrieNode path = some indexes
  added : ∀ path indexes, next.root.lookup compareTrieNode path = some indexes →
    space.root.lookup compareTrieNode path = some indexes ∨
      space.root.lookup compareTrieNode path = none ∧ indexes = Indexes.zero
  entries : next.entries = space.entries
  labels : next.labels = space.labels
  dataSize : next.dataSize = space.dataSize
  commitId : next.commitId = space.commitId
  currOffset : space.currOffset ≤ next.currOffset

theorem Extends.refl (space : WorkSpace) : Extends space space :=
  ⟨fun _ _ => id, fun _ _ => .inl, rfl, rfl, rfl, rfl, Nat.le_refl _⟩

theorem Extends.entryAt (extends_ : Extends space next) (index : Nat) :
    next.entryAt index = space.entryAt index := by
  rw [WorkSpace.entryAt, WorkSpace.entryAt, extends_.entries, extends_.dataSize]

theorem Extends.dataIndex (extends_ : Extends space next) (path : List CString) :
    (next.root.lookup compareTrieNode path).elim 0 Indexes.dataIndex =
      (space.root.lookup compareTrieNode path).elim 0 Indexes.dataIndex := by
  cases before : space.root.lookup compareTrieNode path with
  | some indexes => rw [extends_.kept path indexes before]
  | none =>
    cases after : next.root.lookup compareTrieNode path with
    | none => rfl
    | some indexes =>
      rcases extends_.added path indexes after with old | ⟨-, rfl⟩
      · exact absurd (before.symm.trans old) nofun
      · rfl

theorem WellFormed.addTrieNode (wellFormed : space.WellFormed) (key : CString) :
    (space.addTrieNode key).1.WellFormed ∧ Extends space (space.addTrieNode key).1 := by
  rw [WorkSpace.addTrieNode]
  split
  · exact ⟨wellFormed, .refl space⟩
  dsimp only
  generalize (subKeys key).takeWhile (fun part => part ≠ []) = parts
  have looks := fun path => @SearchTrie.lookup_addPath _ _ _ compareTrieNode
    compareTrieNode_eq_iff (allocateParamTrieNode space.dataSize) Indexes.zero space.root
    (rootKey :: parts) path space.currOffset
  have extends_ : Extends space { space with
        root := (SearchTrie.addPath compareTrieNode (allocateParamTrieNode space.dataSize)
          Indexes.zero (rootKey :: parts) space.root space.currOffset).1.1
        currOffset := (SearchTrie.addPath compareTrieNode (allocateParamTrieNode space.dataSize)
          Indexes.zero (rootKey :: parts) space.root space.currOffset).1.2 } := by
    refine ⟨fun path indexes holds => ?_, fun path indexes holds => ?_, rfl, rfl, rfl, rfl, ?_⟩
    · rcases looks path with same | ⟨none, -⟩
      · exact same.trans holds
      · exact absurd (none.symm.trans holds) nofun
    · rcases looks path with same | ⟨none, -, empty⟩
      · exact .inl (same.symm.trans holds)
      · exact .inr ⟨none, some.inj (holds.symm.trans empty)⟩
    · refine @SearchTrie.addPath_state _ _ _ _ _ _ _ (fun offset => space.currOffset ≤ offset) _ _
        (fun state key next allocated behind => ?_) (Nat.le_refl _)
      rw [allocateParamTrieNode, ite_none_right_eq_some] at allocated
      obtain rfl := some.inj allocated.2
      omega
  refine ⟨⟨?_, wellFormed.sorted.addPath, fun path indexes holds data => ?_,
    fun offset entry holds => ?_, ?_, ?_⟩, extends_⟩
  · obtain ⟨label, child, root⟩ := wellFormed.root
    rw [root]
    exact ⟨label, _, rfl⟩
  · rcases extends_.added path indexes holds with old | ⟨-, rfl⟩
    · exact wellFormed.entries path indexes old data
    · exact absurd rfl data
  · exact Nat.lt_of_lt_of_le (wellFormed.bounded offset entry holds) extends_.currOffset
  · exact Nat.lt_of_lt_of_le wellFormed.positive extends_.currOffset
  · refine @SearchTrie.addPath_state _ _ _ _ _ _ _ (fun offset => offset ≤ space.dataSize) _ _
      (fun state key next allocated _ => ?_) wellFormed.room
    rw [allocateParamTrieNode, ite_none_right_eq_some] at allocated
    obtain rfl := some.inj allocated.2
    omega

/-- The data index of the node at a path, zero when there is no node. -/
def dataIndexAt (space : WorkSpace) (path : List CString) : Nat :=
  (space.root.lookup compareTrieNode path).elim 0 Indexes.dataIndex

def paramAt (space : WorkSpace) (path : List CString) : Option ParamNode :=
  space.entryAt ((space.root.lookup compareTrieNode path).elim 0 Indexes.dataIndex)

theorem Extends.paramAt (extends_ : Extends space next) (path : List CString) :
    next.paramAt path = space.paramAt path := by
  rw [WorkSpace.paramAt, WorkSpace.paramAt, extends_.entryAt, extends_.dataIndex]

@[simp] theorem entryAt_zero (space : WorkSpace) : space.entryAt 0 = none := by
  rw [entryAt, if_pos (.inl rfl)]

section

variable (wellFormed : space.WellFormed)
include wellFormed

theorem WellFormed.of_paramAt {path : List CString}
    {entry : ParamNode} (holds : space.paramAt path = some entry) :
    path = rootKey :: subKeys entry.key ∧ Accepted entry.key ∧
      (isReadyOnly entry.key = false → entry.value.length < paramValueLenMax) := by
  rw [paramAt] at holds
  cases leads : space.root.lookup compareTrieNode path with
  | none =>
    rw [leads] at holds
    exact absurd holds nofun
  | some indexes =>
    rw [leads, elim_some] at holds
    have data : indexes.dataIndex ≠ 0 := by
      intro zero
      rw [zero] at holds
      exact absurd holds nofun
    obtain ⟨one, entryAt, found⟩ := wellFormed.entries path indexes leads data
    obtain rfl : one = entry := some.inj (entryAt.symm.trans holds)
    exact found

theorem WellFormed.readParam_eq (accepted : Accepted name)
    (named : name ≠ ['#']) :
    space.readParam name = (space.paramAt (rootKey :: subKeys name)).map ParamNode.value := by
  rw [readParam, wellFormed.findDataIndex_eq accepted named]
  split
  · rfl
  rename_i zero
  rw [paramAt, show (space.root.lookup compareTrieNode (rootKey :: subKeys name)).elim 0
    Indexes.dataIndex = 0 from not_not.mp zero]
  rfl

theorem WellFormed.readParam_root :
    space.readParam ['#'] = none := by
  rw [readParam, wellFormed.findDataIndex_root]
  rfl

theorem WellFormed.root_alterAt {change : Indexes → Indexes}
    {path : List CString}
    (keeps : path = [rootKey] → ∀ indexes, (change indexes).dataIndex = indexes.dataIndex) :
    ∃ label child, space.root.alterAt compareTrieNode change path =
      .node rootKey ⟨label, 0⟩ .leaf .leaf child := by
  obtain ⟨label, child, root⟩ := wellFormed.root
  rw [root]
  match path with
  | [] => exact ⟨label, child, rfl⟩
  | [key] =>
    rw [SearchTrie.alterAt, SearchTrie.alter]
    split
    · rename_i equal
      obtain rfl := (compareTrieNode_eq_iff _ _).mp equal
      have data := keeps rfl ⟨label, 0⟩
      exact ⟨(change ⟨label, 0⟩).labelIndex, child,
        congrArg (fun indexes => SearchTrie.node rootKey indexes .leaf .leaf child)
          (congrArg (Indexes.mk _) data)⟩
    · exact ⟨label, child, rfl⟩
    · exact ⟨label, child, rfl⟩
  | key :: second :: rest =>
    rw [SearchTrie.alterAt, SearchTrie.alter]
    split
    · exact ⟨label, _, rfl⟩
    · exact ⟨label, child, rfl⟩
    · exact ⟨label, child, rfl⟩

end

/-- What a name and its value have to be for an entry. -/
structure Entry (entry : ParamNode) : Prop where
  accepted : Accepted entry.key
  short : isReadyOnly entry.key = false → entry.value.length < paramValueLenMax

theorem WellFormed.addEntry (wellFormed : space.WellFormed) {entry : ParamNode}
    (proper : Entry entry) {indexes : Indexes} {offset size : Nat}
    (leads : space.root.lookup compareTrieNode (rootKey :: subKeys entry.key) = some indexes)
    (unused : indexes.dataIndex = 0) (fresh : space.currOffset = offset)
    (room : offset + size < space.dataSize) (some_ : 0 < size)
    (becomes : next = { space.saveIndex (rootKey :: subKeys entry.key)
        (fun indexes => { indexes with dataIndex := offset }) with
      entries := update space.entries offset (some entry)
      commitId := space.commitId + 1
      currOffset := offset + size }) :
    next.WellFormed ∧ next.paramAt (rootKey :: subKeys entry.key) = some entry ∧
      (∀ path, path ≠ rootKey :: subKeys entry.key → next.paramAt path = space.paramAt path) ∧
        ∀ path, space.dataIndexAt path ≠ 0 → next.dataIndexAt path = space.dataIndexAt path := by
  subst becomes
  subst fresh
  have looks := fun change => @SearchTrie.lookup_alterAt_self _ _ compareTrieNode space.root change
    (rootKey :: subKeys entry.key)
  have others := fun change path different => @SearchTrie.lookup_alterAt_ne _ _ compareTrieNode
    compareTrieNode_eq_iff space.root change (rootKey :: subKeys entry.key) path different
  have positive := wellFormed.positive
  have newEntry : ∀ (root : ParamTrie) (commitId : BitVec 64) (currOffset : Nat),
      entryAt ⟨root, update space.entries space.currOffset (some entry), space.labels,
        commitId, currOffset, space.dataSize⟩ space.currOffset = some entry := by
    intro root commitId currOffset
    rw [entryAt, if_neg (by dsimp only; omega)]
    exact update_self ..
  have oldEntry : ∀ (root : ParamTrie) (commitId : BitVec 64) (currOffset index : Nat),
      index ≠ space.currOffset →
      entryAt ⟨root, update space.entries space.currOffset (some entry), space.labels,
        commitId, currOffset, space.dataSize⟩ index = space.entryAt index := by
    intro root commitId currOffset index different
    rw [entryAt, entryAt]
    dsimp only
    rw [update_of_ne different]
  have behind : ∀ path indexes, space.root.lookup compareTrieNode path = some indexes →
      indexes.dataIndex ≠ space.currOffset := by
    intro path indexes holds same
    obtain ⟨one, entryAt, -⟩ := wellFormed.entries path indexes holds (by omega)
    rw [WorkSpace.entryAt] at entryAt
    split at entryAt
    · exact absurd entryAt nofun
    · have before := wellFormed.bounded _ _ entryAt
      omega
  refine ⟨⟨?_, wellFormed.sorted.alterAt, fun path one holds data => ?_,
    fun place one holds => ?_, ?_, ?_⟩, ?_, fun path different => ?_, fun path data => ?_⟩
  · refine wellFormed.root_alterAt fun single => ?_
    exact absurd (List.cons.inj single).2 (subKeys_ne_nil _)
  · by_cases same : path = rootKey :: subKeys entry.key
    · subst same
      obtain rfl := some.inj (holds.symm.trans ((looks _).trans (congrArg _ leads)))
      exact ⟨entry, newEntry .., rfl, proper.accepted, proper.short⟩
    · have old := (others _ path same).symm.trans holds
      obtain ⟨entry', entryAt, found⟩ := wellFormed.entries path one old data
      exact ⟨entry', (oldEntry _ _ _ _ (behind path one old)).trans entryAt, found⟩
  · show place < space.currOffset + size
    by_cases same : place = space.currOffset
    · omega
    · have old := (update_of_ne same ..).symm.trans holds
      have before := wellFormed.bounded place one old
      omega
  · show 0 < space.currOffset + size
    omega
  · show space.currOffset + size ≤ space.dataSize
    omega
  · have leads' := (looks fun indexes => { indexes with dataIndex := space.currOffset }).trans
      (congrArg _ leads)
    rw [paramAt, saveIndex]
    rw [leads']
    exact newEntry ..
  · rw [paramAt, paramAt, saveIndex]
    rw [others _ path different]
    cases old : space.root.lookup compareTrieNode path with
    | none =>
      rw [elim_none, entryAt_zero, entryAt_zero]
    | some one => exact oldEntry _ _ _ _ (behind path one old)
  · have different : path ≠ rootKey :: subKeys entry.key := by
      rintro rfl
      rw [dataIndexAt, leads] at data
      exact data unused
    rw [dataIndexAt, dataIndexAt, saveIndex]
    rw [others _ path different]

/-- What a write of a name does to the parameters. -/
structure Writes (space : WorkSpace) (name value : CString) (result : WorkSpace × ParamCode) :
    Prop where
  wellFormed : result.1.WellFormed
  others : ∀ path, path ≠ rootKey :: subKeys name → result.1.paramAt path = space.paramAt path
  written : result.2 = .success → name ≠ ['#'] →
    ∃ entry, result.1.paramAt (rootKey :: subKeys name) = some entry ∧ entry.value = value ∧
      entry.commitId = (space.paramAt (rootKey :: subKeys name)).elim 0 fun old =>
        nextCommitId old.commitId
  failed : result.2 ≠ .success → ∀ path, result.1.paramAt path = space.paramAt path
  index : ∀ path, space.dataIndexAt path ≠ 0 →
    result.1.dataIndexAt path = space.dataIndexAt path
  committed : result.2 = .success → name ≠ ['#'] → result.1.commitId = space.commitId + 1
  commitId : result.1.commitId = space.commitId ∨ result.1.commitId = space.commitId + 1

theorem Writes.refused (wellFormed : space.WellFormed) {value : CString} {code : ParamCode}
    (fails : code ≠ .success) : Writes space name value (space, code) :=
  ⟨wellFormed, fun _ _ => rfl, fun succeeds => absurd succeeds fails, fun _ _ => rfl,
    fun _ _ => rfl, fun succeeds => absurd succeeds fails, .inl rfl⟩

theorem Writes.extended (wellFormed : next.WellFormed) (extends_ : Extends space next)
    {value : CString} {code : ParamCode} (fails : code = .success → name = ['#']) :
    Writes space name value (next, code) :=
  ⟨wellFormed, fun path _ => extends_.paramAt path,
    fun succeeds named => absurd (fails succeeds) named, fun _ path => extends_.paramAt path,
    fun path _ => extends_.dataIndex path,
    fun succeeds named => absurd (fails succeeds) named, .inl extends_.commitId⟩

theorem paramNodeSize_pos (type : BitVec 8) (key value : CString) :
    0 < paramNodeSize type key value := by
  rw [paramNodeSize, paramAlign, sizeofParamNode]
  omega

theorem WellFormed.addParam (wellFormed : space.WellFormed) (accepted : Accepted name)
    {value : CString} {type : BitVec 8}
    (short : isReadyOnly name = false → value.length < paramValueLenMax)
    (absent : name ≠ ['#'] → space.paramAt (rootKey :: subKeys name) = none) :
    Writes space name value (space.addParam type name value) := by
  obtain ⟨nodesFormed, extends_⟩ := wellFormed.addTrieNode name
  rw [WorkSpace.addParam]
  split
  · rename_i added nodes
    rw [nodes] at nodesFormed extends_
    exact .extended nodesFormed extends_ nofun
  rename_i added nodes
  rw [nodes] at nodesFormed extends_
  split
  · exact .extended nodesFormed extends_ nofun
  rename_i indexes leads
  split
  · rename_i entry present
    refine .extended nodesFormed extends_ fun _ => Decidable.byContradiction fun named => ?_
    have nothing := (extends_.paramAt _).trans (absent named)
    rw [paramAt, leads, elim_some, present] at nothing
    exact absurd nothing nofun
  rename_i missing
  split
  · exact .extended nodesFormed extends_ nofun
  rename_i withEntry offset allocated
  rw [addParamNode, ite_none_right_eq_some] at allocated
  obtain ⟨room, allocated⟩ := allocated
  obtain ⟨rfl, rfl⟩ := Prod.ext_iff.mp (some.inj allocated)
  have unused : indexes.dataIndex = 0 := by
    refine Decidable.byContradiction fun used => ?_
    obtain ⟨entry, present, -⟩ := nodesFormed.entries _ _ leads used
    exact absurd (missing.symm.trans present) nofun
  obtain ⟨formed, written, others, index⟩ := @WellFormed.addEntry added _ nodesFormed
    ⟨0, type, name, value⟩ ⟨accepted, short⟩ indexes added.currOffset
    (paramNodeSize type name value) leads unused rfl room (paramNodeSize_pos type name value) rfl
  have commitId : added.commitId + 1 = space.commitId + 1 := congrArg (· + 1) extends_.commitId
  refine ⟨formed, fun path different => ?_, fun _ named => ⟨_, written, rfl, ?_⟩, absurd rfl,
    fun path data => ?_, fun _ _ => commitId, .inr commitId⟩
  · exact (others path different).trans (extends_.paramAt path)
  · rw [absent named]
    rfl
  · have same : added.dataIndexAt path = space.dataIndexAt path := extends_.dataIndex path
    exact (index path (same ▸ data)).trans same

theorem WellFormed.updateParam (wellFormed : space.WellFormed) (accepted : Accepted name)
    {value : CString} {entry : ParamNode} {indexes : Indexes}
    (leads : space.root.lookup compareTrieNode (rootKey :: subKeys name) = some indexes)
    (present : space.entryAt indexes.dataIndex = some entry) (named : entry.key = name)
    (changeable : isReadyOnly name = false) (short : value.length < paramValueLenMax) :
    Writes space name value (space.updateParam indexes.dataIndex name value) := by
  have length := accepted.length_lt
  have found := wellFormed.of_paramAt (show space.paramAt (rootKey :: subKeys name) = some entry by
      rw [paramAt, leads]
      exact present)
  have keyLength : entry.keyLength = name.length := by
    rw [ParamNode.keyLength, named]
    exact Nat.mod_eq_of_lt (by omega)
  have old : entry.value.length < paramValueLenMax := found.2.2 (named ▸ changeable)
  have updated : (updateEntry entry value).value = value := if_pos ⟨old, short⟩
  rw [WorkSpace.updateParam, present]
  dsimp only
  rw [if_neg (not_not.mpr keyLength)]
  have index : indexes.dataIndex ≠ 0 ∧ indexes.dataIndex ≤ space.dataSize := by
    rw [entryAt] at present
    split at present
    · exact absurd present nofun
    · omega
  have newEntry : ∀ place, entryAt { space with
      entries := update space.entries indexes.dataIndex (some (updateEntry entry value))
      commitId := space.commitId + 1 } place =
        if place = indexes.dataIndex then some (updateEntry entry value)
        else space.entryAt place := by
    intro place
    rw [entryAt, entryAt]
    dsimp only
    by_cases same : place = indexes.dataIndex
    · rw [same, if_neg (by omega), if_pos rfl]
      exact update_self ..
    · rw [update_of_ne same, if_neg same]
  have apart : ∀ path one, space.root.lookup compareTrieNode path = some one →
      one.dataIndex = indexes.dataIndex → path = rootKey :: subKeys name := by
    intro path one holds same
    obtain ⟨other, entryAt, path, -⟩ := wellFormed.entries path one holds (same ▸ index.1)
    obtain rfl : other = entry := some.inj (entryAt.symm.trans (same ▸ present))
    rw [path, named]
  refine ⟨⟨wellFormed.root, wellFormed.sorted, fun path one holds data => ?_,
    fun place one holds => ?_, wellFormed.positive, wellFormed.room⟩, fun path different => ?_,
    fun _ _ => ⟨updateEntry entry value, ?_, updated, ?_⟩, absurd rfl, fun _ _ => rfl,
    fun _ _ => rfl, .inr rfl⟩
  · rw [newEntry]
    split
    · rename_i same
      refine ⟨_, rfl, ?_, ?_, fun _ => ?_⟩
      · show path = rootKey :: subKeys entry.key
        rw [named, apart path one holds same]
      · exact found.2.1
      · rw [updated]
        exact short
    · exact wellFormed.entries path one holds data
  · by_cases same : place = indexes.dataIndex
    · subst same
      rw [entryAt] at present
      split at present
      · exact absurd present nofun
      · exact wellFormed.bounded _ _ present
    · exact wellFormed.bounded place one ((update_of_ne same ..).symm.trans holds)
  · rw [paramAt, paramAt, newEntry]
    cases holds : space.root.lookup compareTrieNode path with
    | none => exact if_neg (Ne.symm index.1)
    | some one => exact if_neg fun same => different (apart path one holds same)
  · rw [paramAt, newEntry]
    rw [leads, elim_some, if_pos rfl]
  · rw [paramAt, leads, elim_some, present]
    rfl

theorem getParamMaxLen_le (type : BitVec 8) : getParamMaxLen type ≤ paramValueLenMax := by
  rw [getParamMaxLen, paramValueLenMax]
  split <;> omega

theorem of_checkParamValue {dataIndex : Nat} {value : CString} {type : BitVec 8}
    (checks : checkParamValue dataIndex name value type = .success) :
    (isReadyOnly name = true → dataIndex = 0) ∧
      (isReadyOnly name = false → value.length < paramValueLenMax) := by
  rw [checkParamValue] at checks
  split at checks
  · rename_i readOnly
    refine ⟨fun _ => ?_, fun changeable => absurd (readOnly.symm.trans changeable) nofun⟩
    split at checks
    · exact absurd checks nofun
    split at checks
    · exact absurd checks nofun
    · exact not_not.mp ‹_›
  · rename_i changeable
    refine ⟨fun readOnly => absurd readOnly changeable, fun _ => ?_⟩
    split at checks
    · exact absurd checks nofun
    · exact Nat.lt_of_lt_of_le (Nat.lt_of_not_le ‹_›) (getParamMaxLen_le type)

theorem WellFormed.writeParam (wellFormed : space.WellFormed) (accepted : Accepted name)
    (value : CString) (onlyAdd : Bool) :
    Writes space name value (space.writeParam name value onlyAdd) := by
  rw [WorkSpace.writeParam]
  dsimp only
  split
  · rename_i found
    have named : name ≠ ['#'] := by
      rintro rfl
      exact found wellFormed.findDataIndex_root
    have index := wellFormed.findDataIndex_eq accepted named
    split
    · exact .refused wellFormed nofun
    split
    · exact .refused wellFormed nofun
    rename_i entry present
    split
    · rename_i checks
      obtain ⟨readOnly, short⟩ := of_checkParamValue checks
      have changeable : isReadyOnly name = false :=
        Bool.eq_false_iff.mpr fun readOnly' => found (readOnly readOnly')
      cases leads : space.nodeAt (subKeys name) with
      | none =>
        rw [leads] at index
        exact absurd index found
      | some indexes =>
        rw [leads] at index
        rw [index] at present found ⊢
        have holds : space.paramAt (rootKey :: subKeys name) = some entry := by
          rw [paramAt, show space.root.lookup _ _ = _ from leads]
          exact present
        have owner := wellFormed.of_paramAt holds
        have key : entry.key = name :=
          (subKeys_injective accepted.last owner.2.1.last (List.cons.inj owner.1).2).symm
        exact wellFormed.updateParam accepted leads present key changeable (short changeable)
    · rename_i fails
      exact .refused wellFormed fun succeeds => fails succeeds
  · rename_i missing
    have zero := not_not.mp missing
    split
    · rename_i checks
      refine wellFormed.addParam accepted (of_checkParamValue checks).2 fun named => ?_
      have index := wellFormed.findDataIndex_eq accepted named
      rw [zero] at index
      rw [paramAt, ← show space.nodeAt (subKeys name) = space.root.lookup _ _ from rfl, ← index,
        entryAt_zero]
    · rename_i fails
      exact .refused wellFormed fun succeeds => fails succeeds

theorem writeParam_readOnly (readOnly : isReadyOnly name = true) {value : CString} {onlyAdd : Bool}
    (writes : (space.writeParam name value onlyAdd).2 = .success) :
    space.readParam name = none := by
  rw [WorkSpace.writeParam] at writes
  split at writes
  · split at writes
    · exact absurd writes nofun
    split at writes
    · exact absurd writes nofun
    split at writes
    · rename_i checks
      exact absurd ((of_checkParamValue checks).1 readOnly) ‹_›
    · exact absurd writes ‹_›
  · exact if_neg ‹_›

theorem WellFormed.saveIndex (wellFormed : space.WellFormed) {change : Indexes → Indexes}
    (keeps : ∀ indexes, (change indexes).dataIndex = indexes.dataIndex) (path : List CString) :
    (space.saveIndex path change).WellFormed ∧
      ∀ other, (space.saveIndex path change).paramAt other = space.paramAt other := by
  have self := @SearchTrie.lookup_alterAt_self _ _ compareTrieNode space.root change path
  have data : ∀ other, ((space.saveIndex path change).root.lookup compareTrieNode other).elim 0
      Indexes.dataIndex = (space.root.lookup compareTrieNode other).elim 0 Indexes.dataIndex := by
    intro other
    rw [WorkSpace.saveIndex]
    by_cases same : other = path
    · subst same
      rw [self]
      cases space.root.lookup compareTrieNode other with
      | none => rfl
      | some indexes => exact keeps indexes
    · rw [SearchTrie.lookup_alterAt_ne compareTrieNode_eq_iff change same]
  refine ⟨⟨wellFormed.root_alterAt fun _ => keeps, wellFormed.sorted.alterAt,
    fun other indexes holds present => ?_, wellFormed.bounded, wellFormed.positive,
    wellFormed.room⟩, fun other => ?_⟩
  · have same := data other
    rw [holds, elim_some] at same
    cases before : space.root.lookup compareTrieNode other with
    | none =>
      rw [before] at same
      exact absurd same present
    | some old =>
      rw [before, elim_some] at same
      rw [same]
      have apart := wellFormed.entries other old before (same ▸ present)
      exact apart
  · rw [paramAt, data]
    rfl

theorem WellFormed.addSecurityLabel (wellFormed : space.WellFormed) (name : CString)
    (label : ParamSecurityNode) : (space.addSecurityLabel name label).1.WellFormed ∧
      ∀ path, (space.addSecurityLabel name label).1.paramAt path = space.paramAt path := by
  rw [WorkSpace.addSecurityLabel]
  split
  case h_2 => exact ⟨wellFormed, fun _ => rfl⟩
  have formed : (space.nodeToLabel name).1.WellFormed ∧
      ∀ path, (space.nodeToLabel name).1.paramAt path = space.paramAt path := by
    rw [nodeToLabel]
    split
    · exact ⟨wellFormed, fun _ => rfl⟩
    · obtain ⟨formed, extends_⟩ := wellFormed.addTrieNode name
      split <;> rename_i added adds <;> rw [adds] at formed extends_ <;>
        exact ⟨formed, extends_.paramAt⟩
  split
  · rename_i found located
    rw [located] at formed
    exact formed
  rename_i found path located
  rw [located] at formed
  split
  · exact formed
  split
  case isFalse => exact formed
  split
  · exact formed
  rename_i labelled offset allocated
  rw [addParamSecurityNode, ite_none_right_eq_some] at allocated
  obtain ⟨room, allocated⟩ := allocated
  obtain ⟨rfl, rfl⟩ := Prod.ext_iff.mp (some.inj allocated)
  obtain ⟨wellFormed', same⟩ := formed
  have grown : WellFormed { found with
      labels := update found.labels found.currOffset
        (some { label with type := label.type &&& paramTypeMask })
      currOffset := found.currOffset + sizeofParamSecurityNode } :=
    ⟨wellFormed'.root, wellFormed'.sorted, wellFormed'.entries,
      fun place entry holds => Nat.lt_add_right _ (wellFormed'.bounded place entry holds),
      Nat.add_pos_left wellFormed'.positive _, Nat.le_of_lt room⟩
  obtain ⟨saved, kept⟩ := @saveIndex _ grown
    (fun indexes => { indexes with labelIndex := found.currOffset }) (fun _ => rfl) path
  exact ⟨saved, fun path => (kept path).trans (same path)⟩

theorem wellFormed_initWorkSpace {dataSize : Nat} (made : initWorkSpace dataSize = some space) :
    space.WellFormed ∧ (∀ path indexes, space.root.lookup compareTrieNode path = some indexes →
      indexes = Indexes.zero) ∧ (∀ offset, space.entries offset = none) ∧
        ∀ offset, space.labels offset = none := by
  rw [initWorkSpace, map_eq_some_iff] at made
  obtain ⟨currOffset, allocated, rfl⟩ := made
  rw [allocateParamTrieNode, ite_none_right_eq_some] at allocated
  obtain ⟨room, allocated⟩ := allocated
  obtain rfl := some.inj allocated
  have zero : ∀ path indexes, (SearchTrie.node rootKey Indexes.zero .leaf .leaf .leaf).lookup
      compareTrieNode path = some indexes → indexes = Indexes.zero := by
    intro path indexes holds
    cases path with
    | nil => cases holds
    | cons key rest =>
      by_cases last : rest = []
      · subst last
        rw [SearchTrie.lookup, SearchTrie.find] at holds
        split at holds
        · exact (some.inj holds).symm
        · cases holds
        · cases holds
      · rw [SearchTrie.lookup_cons last, SearchTrie.find] at holds
        split at holds <;> cases holds.symm.trans (SearchTrie.lookup_leaf _)
  refine ⟨⟨⟨0, .leaf, rfl⟩, SearchTrie.Sorted.single trivial,
    fun path indexes holds data => absurd (congrArg Indexes.dataIndex (zero path indexes holds)) data,
    fun offset entry holds => absurd holds (some_ne_none _).symm, ?_, Nat.le_of_lt room⟩,
      zero, fun _ => rfl, fun _ => rfl⟩
  show 0 < 0 + trieNodeSize rootKey
  decide

theorem wellFormed_init {dataSize : Nat} (made : initParamWorkSpace dataSize = some space) :
    space.WellFormed ∧ ∀ path, space.paramAt path = none := by
  rw [initParamWorkSpace, bind_eq_some_iff] at made
  obtain ⟨bare, allocated, labelled⟩ := made
  obtain ⟨wellFormed, -, empty, -⟩ := wellFormed_initWorkSpace allocated
  have nothing : ∀ path, bare.paramAt path = none := by
    intro path
    rw [paramAt, entryAt]
    split
    · rfl
    · exact empty _
  have added := wellFormed.addSecurityLabel ['#'] defaultLabel
  split at labelled
  · rename_i next result
    obtain rfl := some.inj labelled
    rw [result] at added
    exact ⟨added.1, fun path => (added.2 path).trans (nothing path)⟩
  · exact absurd labelled nofun

end WorkSpace

/-! ### The map -/

/-- A workspace with the writes that succeeded, the last one first. -/
structure Store where
  space : WorkSpace
  written : List (CString × CString)

/-- What a client of the workspace calls. -/
inductive Action where
  | write (name value : CString) (onlyAdd : Bool)
  | addLabel (name : CString) (label : ParamSecurityNode)
  deriving DecidableEq

/-- A call, of `WriteParam` with a name that `CheckParamName` accepts. -/
def step (state : Store) : Action → Option Store
  | .write name value onlyAdd =>
      if Accepted name then
        match state.space.writeParam name value onlyAdd with
        | (space, .success) => some ⟨space, (name, value) :: state.written⟩
        | (space, _) => some ⟨space, state.written⟩
      else none
  | .addLabel name label => some { state with space := (state.space.addSecurityLabel name label).1 }

/-- An initialised workspace, before any write. -/
def Initialised (state : Store) : Prop :=
  ∃ dataSize, initParamWorkSpace dataSize = some state.space ∧ state.written = []

/-- The workspace is the map of its writes. -/
structure Refines (state : Store) : Prop where
  reads : ∀ name, Accepted name → state.space.readParam name = state.written.lookup name
  failed : ∀ name value onlyAdd, Accepted name →
    (state.space.writeParam name value onlyAdd).2 ≠ .success → ∀ other, Accepted other →
      (state.space.writeParam name value onlyAdd).1.readParam other = state.space.readParam other
  first : ∀ name, Accepted name → isReadyOnly name = true →
    state.space.readParam name = state.written.reverse.lookup name

theorem reached_wellFormed {state : Store}
    (reached : Reachable step (fun _ _ => True) Initialised state) : state.space.WellFormed := by
  refine @Reachable.invariant _ _ _ _ _ _ (fun state => state.space.WellFormed)
    (fun state initialised => ?_) (fun state action next _ wellFormed _ steps => ?_) reached
  · obtain ⟨dataSize, made, -⟩ := initialised
    exact (WorkSpace.wellFormed_init made).1
  · cases action with
    | write name value onlyAdd =>
      rw [step, ite_none_right_eq_some] at steps
      obtain ⟨accepted, steps⟩ := steps
      have writes := (wellFormed.writeParam accepted value onlyAdd).wellFormed
      split at steps <;> rename_i result <;> rw [result] at writes <;>
        obtain rfl := some.inj steps <;> exact writes
    | addLabel name label =>
      obtain rfl := some.inj steps
      exact (wellFormed.addSecurityLabel name label).1

def NamesNode (_ : Store) : Action → Prop
  | .write name _ _ => name ≠ ['#']
  | .addLabel _ _ => True

instance (state : Store) (action : Action) : Decidable (NamesNode state action) := by
  cases action <;> unfold NamesNode <;> infer_instance

/-- What every run keeps when no write names the root. -/
structure Invariant (state : Store) : Prop where
  wellFormed : state.space.WellFormed
  reads : ∀ name, Accepted name → name ≠ ['#'] →
    (state.space.paramAt (rootKey :: subKeys name)).map ParamNode.value = state.written.lookup name
  unnamed : state.written.lookup ['#'] = none
  first : ∀ name, Accepted name → isReadyOnly name = true →
    state.written.reverse.lookup name = state.written.lookup name

theorem Invariant.readParam {state : Store} (invariant : Invariant state) {name : CString}
    (accepted : Accepted name) : state.space.readParam name = state.written.lookup name := by
  by_cases named : name = ['#']
  · subst named
    rw [invariant.wellFormed.readParam_root, invariant.unnamed]
  · rw [invariant.wellFormed.readParam_eq accepted named]
    exact invariant.reads name accepted named

theorem Invariant.refines {state : Store} (invariant : Invariant state) : Refines state := by
  refine ⟨fun name accepted => invariant.readParam accepted,
    fun name value onlyAdd accepted fails other otherAccepted => ?_,
    fun name accepted readOnly => ?_⟩
  · have writes := invariant.wellFormed.writeParam accepted value onlyAdd
    by_cases named : other = ['#']
    · subst named
      rw [writes.wellFormed.readParam_root, invariant.wellFormed.readParam_root]
    · rw [writes.wellFormed.readParam_eq otherAccepted named, writes.failed fails,
        invariant.wellFormed.readParam_eq otherAccepted named]
  · rw [invariant.first name accepted readOnly]
    exact invariant.readParam accepted

theorem Invariant.written {state : Store} (invariant : Invariant state) {name value : CString}
    {onlyAdd : Bool} {space : WorkSpace} (accepted : Accepted name) (named : name ≠ ['#'])
    (writes : state.space.writeParam name value onlyAdd = (space, .success)) :
    Invariant ⟨space, (name, value) :: state.written⟩ := by
  have effect := invariant.wellFormed.writeParam accepted value onlyAdd
  rw [writes] at effect
  refine ⟨effect.wellFormed, fun other otherAccepted otherNamed => ?_, ?_,
    fun other otherAccepted readOnly => ?_⟩
  · rw [List.lookup_cons]
    by_cases same : other = name
    · subst same
      rw [beq_self_eq_true]
      obtain ⟨entry, present, holds, -⟩ := effect.written rfl named
      exact (congrArg (Option.map ParamNode.value) present).trans (congrArg some holds)
    · rw [beq_eq_false_iff_ne.mpr same, effect.others _ fun path => same
        (subKeys_injective otherAccepted.last accepted.last (List.cons.inj path).2)]
      exact invariant.reads other otherAccepted otherNamed
  · rw [List.lookup_cons, beq_eq_false_iff_ne.mpr (Ne.symm named)]
    exact invariant.unnamed
  · rw [reverse_cons, List.lookup_append, List.lookup_cons, List.lookup_cons,
      invariant.first other otherAccepted readOnly]
    by_cases same : other = name
    · subst same
      have missing := WorkSpace.writeParam_readOnly readOnly (congrArg Prod.snd writes)
      rw [← invariant.readParam accepted, missing]
      rfl
    · rw [beq_eq_false_iff_ne.mpr same, lookup_nil, or_none]

theorem Invariant.unwritten {state : Store} (invariant : Invariant state) {name value : CString}
    {onlyAdd : Bool} {space : WorkSpace} {code : ParamCode} (accepted : Accepted name)
    (writes : state.space.writeParam name value onlyAdd = (space, code))
    (fails : code ≠ .success) : Invariant ⟨space, state.written⟩ := by
  have effect := invariant.wellFormed.writeParam accepted value onlyAdd
  rw [writes] at effect
  refine ⟨effect.wellFormed, fun other otherAccepted otherNamed => ?_, invariant.unnamed,
    invariant.first⟩
  rw [effect.failed fails]
  exact invariant.reads other otherAccepted otherNamed

theorem Invariant.step {state next : Store} {action : Action} (invariant : Invariant state)
    (names : NamesNode state action) (steps : step state action = some next) : Invariant next := by
  cases action with
  | write name value onlyAdd =>
    rw [Param.step, ite_none_right_eq_some] at steps
    obtain ⟨accepted, steps⟩ := steps
    split at steps
    · rename_i space writes
      obtain rfl := some.inj steps
      exact invariant.written accepted names writes
    · rename_i space code fails writes
      obtain rfl := some.inj steps
      exact invariant.unwritten accepted writes fun success => fails (success ▸ rfl)
  | addLabel name label =>
    obtain rfl := some.inj steps
    obtain ⟨wellFormed, same⟩ := invariant.wellFormed.addSecurityLabel name label
    refine ⟨wellFormed, fun other accepted named => ?_, invariant.unnamed, invariant.first⟩
    rw [same]
    exact invariant.reads other accepted named

theorem Initialised.invariant {state : Store} (initialised : Initialised state) :
    Invariant state := by
  obtain ⟨dataSize, made, empty⟩ := initialised
  obtain ⟨wellFormed, nothing⟩ := WorkSpace.wellFormed_init made
  refine ⟨wellFormed, fun name _ _ => ?_, ?_, fun name _ _ => ?_⟩
  · rw [nothing, empty]
    rfl
  · rw [empty]
    rfl
  · rw [empty]
    rfl

/-- As long as no write names the root, the workspace is the map of its writes. -/
theorem workspace_refines_map {state : Store}
    (reached : Reachable step NamesNode Initialised state) : Refines state :=
  (reached.invariant (fun _ => Initialised.invariant)
    fun _ _ _ _ holds names steps => holds.step names steps).refines

/-- Calls after an area of one KiB has been made a workspace. -/
def runInKiB (test : Store → Action → Bool) (actions : List Action) : Option Store :=
  (initParamWorkSpace 1024).bind fun space => execute step test ⟨space, []⟩ actions

theorem runInKiB_reached {condition : Store → Action → Prop} {test : Store → Action → Bool}
    (sound : ∀ state action, test state action = true → condition state action)
    {actions : List Action} {last : Store} (result : runInKiB test actions = some last) :
    Reachable step condition Initialised last := by
  obtain ⟨space, made, runs⟩ := bind_eq_some_iff.mp result
  exact .of_execute sound actions (.start ⟨1024, made, rfl⟩) runs

/-- A parameter that is updated, and one that cannot be. -/
def sampleActions : List Action :=
  [.addLabel "a.b".toList ⟨1, 2, 0o750, paramTypeInt⟩, .write "a.b".toList "1".toList false,
    .write "const.c".toList "on".toList true, .write "a.b".toList "x".toList false,
    .write "a.b".toList "2".toList false, .write "const.c".toList "off".toList false]

theorem workspace_refines_map_sample : ∃ state,
    runInKiB (fun state action => decide (NamesNode state action)) sampleActions = some state ∧
      Refines state := by
  have runs : (runInKiB (fun state action => decide (NamesNode state action))
      sampleActions).isSome = true := by decide
  obtain ⟨state, result⟩ := Option.isSome_iff_exists.mp runs
  exact ⟨state, result, workspace_refines_map
    (runInKiB_reached (fun _ _ => of_decide_eq_true) result)⟩

/-- What is written under the name of the root cannot be looked up. -/
theorem workspace_loses_root :
    ¬∀ state, Reachable step (fun _ _ => True) Initialised state → Refines state := by
  intro all
  have runs : (runInKiB (fun _ _ => true) [.write ['#'] ['1'] false]).map (fun state =>
      decide (state.space.readParam ['#'] = state.written.lookup ['#'])) = some false := by
    decide
  obtain ⟨state, result, wrong⟩ := Option.map_eq_some_iff.mp runs
  have refines := all state (runInKiB_reached (fun _ _ _ => trivial) result)
  exact of_decide_eq_false wrong (refines.reads ['#'] (by decide))

end TowerSafe.Param
