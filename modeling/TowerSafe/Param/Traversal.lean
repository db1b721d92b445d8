/-
This file embeds the traversal of the parameters with a prefix (`SystemTraversalParameter`): a start
node is searched for in the trie of each workspace, what is below it is walked, and the entries are
compared with the prefix as texts. It says exactly when each parameter with the prefix is visited
once and no other.
-/

import TowerSafe.Library.TrieWalk
import TowerSafe.Param.Store

namespace TowerSafe.Param

open Library
open Option (elim_some getD_some map_some some.inj some_ne_none)
open List

/-! ### The workspaces -/

/-- What a workspace can hold: `WriteParam` adds and updates parameters, the type of a new one being
that of a label in any workspace, and labels are added. -/
inductive Content : WorkSpace → Prop
  | init {dataSize : Nat} {space : WorkSpace} (made : initWorkSpace dataSize = some space) :
      Content space
  | add {space : WorkSpace} {name value : CString} {type : BitVec 8} (content : Content space)
      (accepted : Accepted name) (missing : space.findDataIndex name = 0)
      (checks : checkParamValue 0 name value type = .success) :
      Content (space.addParam type name value).1
  | update {space : WorkSpace} {name value : CString} {entry : ParamNode} (content : Content space)
      (accepted : Accepted name) (found : space.findDataIndex name ≠ 0)
      (present : space.entryAt (space.findDataIndex name) = some entry)
      (checks : checkParamValue (space.findDataIndex name) name value entry.type = .success) :
      Content (space.updateParam (space.findDataIndex name) name value).1
  | label {space : WorkSpace} {name : CString} {label : ParamSecurityNode}
      (content : Content space) : Content (space.addSecurityLabel name label).1

def workSpaceNameDac : CString := "param_sec_dac".toList

/-- The workspaces in their list, by their file names, the name under which `GetWorkSpace` looks for
the workspace of a parameter, and what `CheckParamPermission` decides. -/
structure ParamSpace where
  workSpaceList : List (CString × WorkSpace)
  tmpName : CString → CString
  checkParamPermission : CString → Bool
  distinct : (workSpaceList.map Prod.fst).Nodup
  content : ∀ member ∈ workSpaceList, Content member.2

/-- The codes of `ReadParamWithCheck`. -/
inductive ReadCode where
  | success
  | nodeExist
  | notFound
  | invalidParam
  | forbidden
  deriving DecidableEq

namespace ParamSpace

variable (paramSpace : ParamSpace)

def getWorkSpace (name : CString) : Option WorkSpace :=
  paramSpace.workSpaceList.lookup (paramSpace.tmpName name)

/-- `ReadParamWithCheck`, without the handle. -/
def readParamWithCheck (name : CString) : ReadCode :=
  if paramSpace.checkParamPermission name = false then .forbidden
  else
    match paramSpace.getWorkSpace name with
    | none => .invalidParam
    | some space =>
        match (space.findTrieNode name).node with
        | none => .notFound
        | some _ => if space.findDataIndex name ≠ 0 then .success else .nodeExist

end ParamSpace

/-! ### The traversal -/

/-- `TraversalSubTrieNode`, with the data indexes with which `walkFunc` calls back. -/
def traversalSubTrieNode (walkFunc : Indexes → List Nat) : ParamTrie → List Nat
  | .leaf => []
  | .node _ current left right child =>
      walkFunc current ++ traversalSubTrieNode walkFunc child ++
        traversalSubTrieNode walkFunc left ++ traversalSubTrieNode walkFunc right

/-- `TraversalTrieNode`: the siblings are left out when there is a node to begin with. -/
def traversalTrieNode (space : WorkSpace) (root : Option ParamTrie)
    (walkFunc : Indexes → List Nat) : List Nat :=
  match root.getD space.root with
  | .leaf => []
  | .node _ current left right child =>
      walkFunc current ++ traversalSubTrieNode walkFunc child ++
        if root = none then
          traversalSubTrieNode walkFunc left ++ traversalSubTrieNode walkFunc right
        else []

/-- `ProcessParamTraversal`: the callback gets the handle that `GetParamHandle` makes of the
workspace and the data index. -/
def processParamTraversal (space : WorkSpace) (start : CString) (current : Indexes) : List Nat :=
  if current.dataIndex = 0 then []
  else
    match space.entryAt current.dataIndex with
    | none => []
    | some entry =>
        if start ≠ ['#'] ∧ ¬ start <+: entry.key ++ '=' :: entry.value then []
        else [current.dataIndex]

namespace ParamSpace

variable (paramSpace : ParamSpace)

/-- The workspaces that are walked: that of the labels is left out when it is the first one. -/
def walked : List (CString × WorkSpace) :=
  match paramSpace.workSpaceList with
  | [] => []
  | first :: rest => if first.1 = workSpaceNameDac then rest else first :: rest

/-- The calls in a workspace. -/
def traversal (start : CString) (space : WorkSpace) : List Nat :=
  let root := if start ≠ [] then (space.findTrieNode start).node.map Prod.fst else none
  traversalTrieNode space root
    (processParamTraversal space (if start = [] then ['#'] else start))

/-- `SystemTraversalParameter`: the calls, with the file name of the workspace and the data index.
A prefix that cannot be read is refused. -/
def systemTraversalParameter (start : CString) : List (CString × Nat) :=
  let calls := paramSpace.walked.flatMap fun member =>
    (traversal start member.2).map (member.1, ·)
  if start = [] then calls
  else
    match paramSpace.readParamWithCheck start with
    | .success => calls
    | .nodeExist => calls
    | .notFound => calls
    | .invalidParam => []
    | .forbidden => []

end ParamSpace

/-- A parameter that a workspace holds at a data index. -/
def WorkSpace.Holds (space : WorkSpace) (index : Nat) (entry : ParamNode) : Prop :=
  ∃ path, space.dataIndexAt path = index ∧ index ≠ 0 ∧ space.entryAt index = some entry

/-- The callback is invoked once for each parameter whose name has the prefix, and for no other. -/
structure Exact (paramSpace : ParamSpace) (start : CString) : Prop where
  once : (paramSpace.systemTraversalParameter start).Nodup
  each : ∀ name index, (name, index) ∈ paramSpace.systemTraversalParameter start ↔
    ∃ space entry, (name, space) ∈ paramSpace.workSpaceList ∧ space.Holds index entry ∧
      start <+: entry.key

/-- The prefix can be read, so that the workspaces are walked. -/
def ParamSpace.Permits (paramSpace : ParamSpace) (start : CString) : Prop :=
  paramSpace.checkParamPermission start = true ∧ paramSpace.getWorkSpace start ≠ none

/-- The condition under which the traversal is exact. No parameter with the prefix is missed: the
prefix can be read, the workspace is walked, and if the prefix leads to a node, the prefix is the
name or ends in front of a part of it. And no other parameter is taken: the prefix is not `#`, and
does not reach into the value. -/
structure ExactWhen (paramSpace : ParamSpace) (start : CString) : Prop where
  missed : ∀ member ∈ paramSpace.workSpaceList, ∀ index entry, member.2.Holds index entry →
    start <+: entry.key → paramSpace.Permits start ∧ member ∈ paramSpace.walked ∧
      ((member.2.findTrieNode start).node ≠ none →
        entry.key = start ∨ start.getLast? = some '.' ∨ start ++ ['.'] <+: entry.key)
  taken : paramSpace.Permits start → ∀ member ∈ paramSpace.walked, ∀ index entry,
    member.2.Holds index entry → start = ['#'] ∨ start <+: entry.key ++ '=' :: entry.value →
      start <+: entry.key

/-! ### Parts of a prefix -/

variable {name key start : CString}

theorem subKeys_dot (rest : CString) :
    subKeys ('.' :: rest) = if rest = [] then [[]] else [] :: subKeys rest := by
  cases rest with
  | nil => rfl
  | cons next rest => rw [if_neg (cons_ne_nil _ _), subKeys.eq_3 _ (cons_ne_nil _ _)]

variable {character : Char}

theorem subKeys_cons (apart : character ≠ '.') (rest : CString) :
    subKeys (character :: rest) = (subKeys rest).modifyHead (List.cons character) := by
  rw [subKeys.eq_4 _ _ (fun dot => absurd dot apart) apart]
  cases found : subKeys rest with
  | nil => exact absurd found (subKeys_ne_nil rest)
  | cons part parts => rfl

theorem subKeys_append (start rest : CString) : ∃ init last other more,
    subKeys start = init ++ [last] ∧ subKeys (start ++ rest) = init ++ other :: more := by
  induction start with
  | nil =>
    obtain ⟨other, more, found⟩ := exists_cons_of_ne_nil (subKeys_ne_nil rest)
    exact ⟨[], [], other, more, rfl, found⟩
  | cons character start hypothesis =>
    obtain ⟨init, last, other, more, ofStart, ofName⟩ := hypothesis
    by_cases dot : character = '.'
    · rw [dot, cons_append, subKeys_dot, subKeys_dot]
      by_cases ends : start = []
      · rw [if_pos ends]
        split
        · exact ⟨[], [], [], [], rfl, rfl⟩
        · exact ⟨[], [], [], _, rfl, rfl⟩
      · rw [if_neg ends, if_neg (append_ne_nil_of_left_ne_nil ends rest), ofStart, ofName]
        exact ⟨[] :: init, last, other, more, rfl, rfl⟩
    · rw [cons_append, subKeys_cons dot, subKeys_cons dot, ofStart, ofName]
      cases init with
      | nil => exact ⟨[], character :: last, character :: other, more, rfl, rfl⟩
      | cons first init => exact ⟨(character :: first) :: init, last, other, more, rfl, rfl⟩

theorem modifyHead_isPrefix_iff (character : Char) {parts others : List CString}
    (some : parts ≠ []) (some' : others ≠ []) :
    parts.modifyHead (List.cons character) <+: others.modifyHead (List.cons character) ↔
      parts <+: others := by
  cases parts with
  | nil => exact absurd rfl some
  | cons part parts =>
    cases others with
    | nil => exact absurd rfl some'
    | cons other others =>
      rw [modifyHead_cons, modifyHead_cons, cons_prefix_cons, cons_prefix_cons, cons_inj_right]

theorem getLast?_cons_of_ne_nil (more : start ≠ []) :
    (character :: start).getLast? = start.getLast? := by
  rw [List.getLast?_cons, List.getLast?_eq_some_getLast more, getD_some]

/-- The parts of a prefix are the first ones of the name when the prefix is the name, or ends in
front of a part or of the dot before it. -/
theorem subKeys_isPrefix_iff {start rest : CString} (proper : (start ++ rest).getLast? ≠ some '.') :
    subKeys start <+: subKeys (start ++ rest) ↔
      rest = [] ∨ start.getLast? = some '.' ∨ rest.head? = some '.' := by
  induction start with
  | nil =>
    rw [nil_append]
    cases rest with
    | nil => exact iff_of_true prefix_rfl (.inl rfl)
    | cons character rest =>
      by_cases dot : character = '.'
      · have begins : [[]] <+: subKeys ('.' :: rest) := by
          rw [subKeys_dot]
          split
          · exact prefix_rfl
          · exact cons_prefix_cons.mpr ⟨rfl, nil_prefix⟩
        exact iff_of_true (dot ▸ begins) (.inr (.inr (congrArg some dot)))
      · refine iff_of_false (fun begins => ?_) ?_
        · rw [subKeys_cons dot] at begins
          obtain ⟨part, parts, found⟩ := exists_cons_of_ne_nil (subKeys_ne_nil rest)
          rw [found] at begins
          exact nomatch (cons_prefix_cons.mp begins).1
        · rintro (none | ends | isHead)
          · exact nomatch none
          · exact nomatch ends
          · exact dot (some.inj isHead)
  | cons character start hypothesis =>
    have proper' : (start ++ rest).getLast? ≠ some '.' := by
      by_cases last : start ++ rest = []
      · rw [last]
        exact nofun
      · rwa [cons_append, getLast?_cons_of_ne_nil last] at proper
    have step := hypothesis proper'
    rw [cons_append]
    by_cases dot : character = '.'
    · rw [dot, subKeys_dot, subKeys_dot]
      by_cases ends : start = []
      · rw [if_pos ends]
        refine iff_of_true ?_ (.inr (.inl (ends ▸ rfl)))
        split
        · exact prefix_rfl
        · exact cons_prefix_cons.mpr ⟨rfl, nil_prefix⟩
      · rw [if_neg ends, if_neg (append_ne_nil_of_left_ne_nil ends rest),
          cons_prefix_cons, and_iff_right rfl, step, getLast?_cons_of_ne_nil ends]
    · rw [subKeys_cons dot, subKeys_cons dot,
        modifyHead_isPrefix_iff character (subKeys_ne_nil _) (subKeys_ne_nil _), step]
      by_cases ends : start = []
      · have apart : [character].getLast? ≠ some '.' := fun same => dot (some.inj same)
        rw [ends, or_iff_right (apart : ¬ _), or_iff_right (nofun : ¬ [].getLast? = some '.')]
      · rw [getLast?_cons_of_ne_nil ends]

/-! ### Characters of the keys -/

theorem noEquals_of_checkNameChars (chars : checkNameChars name = true) : '=' ∉ name := by
  fun_induction checkNameChars name with
  | case1 => exact not_mem_nil
  | case2 => exact nomatch chars
  | case3 character rest dots hypothesis =>
    rw [Bool.and_eq_true] at chars
    intro member
    rcases mem_cons.mp member with rfl | later
    · exact absurd chars.1 (by decide)
    · exact hypothesis chars.2 later

theorem Accepted.noEquals (accepted : Accepted name) : '=' ∉ name := by
  by_cases named : name = ['#']
  · rw [named]
    decide
  · exact noEquals_of_checkNameChars (accepted.chars named).2.2.2

theorem Accepted.eq_of_head (accepted : Accepted name) (isHead : name.head? = some '#') :
    name = ['#'] := by
  refine Decidable.byContradiction fun named => ?_
  have chars := (accepted.chars named).2.2.2
  cases name with
  | nil => exact nomatch isHead
  | cons first rest =>
    obtain rfl := some.inj isHead
    simp [checkNameChars, isAlnum] at chars

theorem mem_of_mem_subKeys {part : CString} (member : part ∈ subKeys name) {character : Char}
    (inside : character ∈ part) : character ∈ name := by
  induction name generalizing part with
  | nil =>
    obtain rfl := mem_singleton.mp member
    exact inside
  | cons first rest hypothesis =>
    by_cases dot : first = '.'
    · rw [dot, subKeys_dot] at member
      split at member
      · exact nomatch mem_singleton.mp member ▸ inside
      · rcases mem_cons.mp member with rfl | later
        · exact nomatch inside
        · exact mem_cons_of_mem first (hypothesis later inside)
    · obtain ⟨head, others, found⟩ := exists_cons_of_ne_nil (subKeys_ne_nil rest)
      rw [subKeys_cons dot, found] at member
      rw [found] at hypothesis
      rcases mem_cons.mp member with rfl | later
      · rcases mem_cons.mp inside with rfl | behind
        · exact mem_cons_self
        · exact mem_cons_of_mem first (hypothesis mem_cons_self behind)
      · exact mem_cons_of_mem first (hypothesis (mem_cons_of_mem head later) inside)

theorem exists_part_of_mem (apart : character ≠ '.')
    (member : character ∈ name) : ∃ part ∈ subKeys name, character ∈ part := by
  induction name with
  | nil => exact nomatch member
  | cons first rest hypothesis =>
    by_cases dot : first = '.'
    · have inRest : character ∈ rest := by
        rcases mem_cons.mp member with rfl | later
        · exact absurd dot apart
        · exact later
      obtain ⟨part, isPart, inside⟩ := hypothesis inRest
      rw [dot, subKeys_dot, if_neg (ne_nil_of_mem inRest)]
      exact ⟨part, mem_cons_of_mem _ isPart, inside⟩
    · obtain ⟨head, others, found⟩ := exists_cons_of_ne_nil (subKeys_ne_nil rest)
      rw [subKeys_cons dot, found]
      rw [found] at hypothesis
      rcases mem_cons.mp member with rfl | later
      · exact ⟨_, mem_cons_self, mem_cons_self⟩
      obtain ⟨part, isPart, inside⟩ := hypothesis later
      rcases mem_cons.mp isPart with rfl | behind
      · exact ⟨_, mem_cons_self, mem_cons_of_mem first inside⟩
      · exact ⟨part, mem_cons_of_mem _ behind, inside⟩

namespace WorkSpace

variable {space next : WorkSpace}

/-- No key of a node has an `=`. -/
def NoEquals (space : WorkSpace) : Prop :=
  ∀ path indexes, space.root.lookup compareTrieNode path = some indexes →
    ∀ part ∈ path, '=' ∉ part

section

variable (noEquals : space.NoEquals)
include noEquals

theorem NoEquals.addTrieNode (plain : '=' ∉ name) :
    (space.addTrieNode name).1.NoEquals := by
  rw [WorkSpace.addTrieNode]
  split
  · exact noEquals
  intro path indexes holds part member
  rcases SearchTrie.lookup_addPath compareTrieNode_eq_iff with old | ⟨-, inside, -⟩
  · exact noEquals path indexes (old.symm.trans holds) part member
  rcases mem_cons.mp (inside.subset member) with rfl | isPart
  · decide
  · exact fun equals => plain (mem_of_mem_subKeys ((List.takeWhile_prefix _).subset isPart) equals)

theorem NoEquals.saveIndex (path : List CString)
    (change : Indexes → Indexes) : (space.saveIndex path change).NoEquals := by
  intro other indexes holds
  rw [WorkSpace.saveIndex] at holds
  by_cases same : other = path
  · rw [same, SearchTrie.lookup_alterAt_self, Option.map_eq_some_iff] at holds
    obtain ⟨old, found, -⟩ := holds
    exact noEquals other old (same ▸ found)
  · rw [SearchTrie.lookup_alterAt_ne compareTrieNode_eq_iff change same] at holds
    exact noEquals other indexes holds

theorem NoEquals.addParam (plain : '=' ∉ name) (type : BitVec 8)
    (value : CString) : (space.addParam type name value).1.NoEquals := by
  have nodes := noEquals.addTrieNode plain
  rw [WorkSpace.addParam]
  split
  · next adds =>
    rw [adds] at nodes
    exact nodes
  next added adds =>
  rw [adds] at nodes
  split
  · exact nodes
  split
  · exact nodes
  split
  · exact nodes
  next allocated =>
  rw [addParamNode, Option.ite_none_right_eq_some] at allocated
  obtain ⟨rfl, rfl⟩ := Prod.ext_iff.mp (some.inj allocated.2)
  exact nodes.saveIndex (rootKey :: subKeys name) fun indexes =>
    { indexes with dataIndex := added.currOffset }

theorem NoEquals.addSecurityLabel (name : CString)
    (label : ParamSecurityNode) : (space.addSecurityLabel name label).1.NoEquals := by
  rw [WorkSpace.addSecurityLabel]
  split
  case h_2 => exact noEquals
  next checks =>
  have plain : '=' ∉ name := by
    rw [checkParamName] at checks
    split_ifs at checks with long named ends chars
    · rw [named]
      decide
    · exact noEquals_of_checkNameChars chars
  have nodes : (space.nodeToLabel name).1.NoEquals := by
    have added := noEquals.addTrieNode plain
    rw [WorkSpace.nodeToLabel]
    split
    · exact noEquals
    · split <;> next adds => rw [adds] at added; exact added
  split
  · next located =>
    rw [located] at nodes
    exact nodes
  next found path located =>
  rw [located] at nodes
  split
  · exact nodes
  split
  case isFalse => exact nodes
  split
  · exact nodes
  next allocated =>
  rw [addParamSecurityNode, Option.ite_none_right_eq_some] at allocated
  obtain ⟨rfl, rfl⟩ := Prod.ext_iff.mp (some.inj allocated.2)
  exact nodes.saveIndex path fun indexes => { indexes with labelIndex := found.currOffset }

end

theorem noEquals_initWorkSpace {dataSize : Nat} (made : initWorkSpace dataSize = some space) :
    space.NoEquals := by
  obtain ⟨currOffset, -, rfl⟩ := Option.map_eq_some_iff.mp made
  intro path indexes holds part member
  cases path with
  | nil => exact nomatch member
  | cons first rest =>
    rw [SearchTrie.lookup_node] at holds
    split at holds
    · next same =>
      have isRoot : first = rootKey := ((compareTrieNode_eq_iff _ _).mp same).symm
      split at holds
      · next last =>
        rw [isRoot, last] at member
        rw [mem_singleton.mp member]
        decide
      · exact nomatch (SearchTrie.lookup_leaf rest).symm.trans holds
    · exact nomatch (SearchTrie.lookup_leaf _).symm.trans holds
    · exact nomatch (SearchTrie.lookup_leaf _).symm.trans holds

theorem updateParam_root (space : WorkSpace) (dataIndex : Nat) (name value : CString) :
    (space.updateParam dataIndex name value).1.root = space.root := by
  rw [WorkSpace.updateParam]
  split
  · rfl
  · split <;> rfl

theorem WellFormed.of_findDataIndex (wellFormed : space.WellFormed) (accepted : Accepted name)
    (found : space.findDataIndex name ≠ 0) : ∃ indexes entry,
      space.root.lookup compareTrieNode (rootKey :: subKeys name) = some indexes ∧
        indexes.dataIndex = space.findDataIndex name ∧
          space.entryAt indexes.dataIndex = some entry ∧ entry.key = name := by
  have named : name ≠ ['#'] := by
    rintro rfl
    exact found wellFormed.findDataIndex_root
  have index := wellFormed.findDataIndex_eq accepted named
  cases leads : space.nodeAt (subKeys name) with
  | none =>
    rw [leads] at index
    exact absurd index found
  | some indexes =>
    rw [leads, elim_some] at index
    obtain ⟨entry, present, path, accepted', -⟩ :=
      wellFormed.entries _ indexes leads (index ▸ found)
    exact ⟨indexes, entry, leads, index.symm, present,
      subKeys_injective accepted'.last accepted.last (List.cons.inj path).2.symm⟩

end WorkSpace

variable {space : WorkSpace}

theorem Content.wellFormed (content : Content space) : space.WellFormed ∧ space.NoEquals := by
  induction content with
  | init made =>
    exact ⟨(WorkSpace.wellFormed_initWorkSpace made).1, WorkSpace.noEquals_initWorkSpace made⟩
  | @add space name value type _ accepted missing checks hypothesis =>
    obtain ⟨wellFormed, noEquals⟩ := hypothesis
    refine ⟨(wellFormed.addParam accepted (WorkSpace.of_checkParamValue checks).2
      fun named => ?_).wellFormed, noEquals.addParam accepted.noEquals type value⟩
    have index := wellFormed.findDataIndex_eq accepted named
    rw [missing] at index
    rw [WorkSpace.paramAt]
    exact index ▸ WorkSpace.entryAt_zero space
  | @update space name value entry _ accepted found present checks hypothesis =>
    obtain ⟨wellFormed, noEquals⟩ := hypothesis
    obtain ⟨indexes, entry, leads, index, present, named⟩ :=
      wellFormed.of_findDataIndex accepted found
    have changeable : isReadyOnly name = false := by
      cases readOnly : isReadyOnly name with
      | false => rfl
      | true => exact absurd ((WorkSpace.of_checkParamValue checks).1 readOnly) found
    have updates := wellFormed.updateParam accepted leads present named changeable
      ((WorkSpace.of_checkParamValue checks).2 changeable)
    rw [index] at updates
    refine ⟨updates.wellFormed, fun path indexes holds => ?_⟩
    rw [WorkSpace.updateParam_root] at holds
    exact noEquals path indexes holds
  | @label space name label _ hypothesis =>
    obtain ⟨wellFormed, noEquals⟩ := hypothesis
    exact ⟨(wellFormed.addSecurityLabel name label).1, noEquals.addSecurityLabel name label⟩

/-! ### Where the search ends -/

/-- The search ends at a node below a path, and what is below the node is below the path. -/
structure FoundAt (space : WorkSpace) (found : ParamTrie) (path : List CString) : Prop where
  node : ∃ indexes, found.data? = some indexes ∧
    space.root.lookup compareTrieNode path = some indexes
  under : SearchTrie.Under compareTrieNode space.root path found.child
  sorted : found.child.Sorted compareTrieNode

theorem foundAt_of_below {siblings left right child : ParamTrie} {key : CString} {data : Indexes}
    {above : List CString} (sorted : siblings.Sorted compareTrieNode)
    (under : SearchTrie.Under compareTrieNode space.root above siblings)
    (below : SearchTrie.Below siblings (.node key data left right child)) :
    FoundAt space (.node key data left right child) (above ++ [key]) where
  node := ⟨data, rfl, under.lookup_key compareTrieNode_eq_iff sorted below⟩
  under := under.of_below compareTrieNode_eq_iff sorted below
  sorted := (sorted.below below).child

variable {found : ParamTrie} {path : List CString}

theorem foundAt_of_findLoop {siblings left right child : ParamTrie} {key : CString} {data : Indexes}
    {above parts : List CString} {label last : Nat}
    (sorted : siblings.Sorted compareTrieNode)
    (under : SearchTrie.Under compareTrieNode space.root above siblings)
    (below : SearchTrie.Below siblings (.node key data left right child))
    (ends : findLoop (.node key data left right child) (above ++ [key]) label parts =
      ⟨some (found, path), last⟩) : FoundAt space found path ∧ ∀ part ∈ parts,
        ∃ path indexes, space.root.lookup compareTrieNode path = some indexes ∧ part ∈ path := by
  induction parts generalizing siblings key data left right child above label with
  | nil =>
    obtain ⟨same, -⟩ := Found.mk.inj ends
    obtain ⟨rfl, rfl⟩ := Prod.ext_iff.mp (some.inj same)
    exact ⟨foundAt_of_below sorted under below, forall_mem_nil _⟩
  | cons part rest hypothesis =>
    rw [findLoop] at ends
    split at ends
    · cases ends
    dsimp only at ends
    by_cases inner : child = .leaf
    · have childless : ¬ (SearchTrie.node key data left right child).child ≠ .leaf :=
        not_not_intro inner
      rw [if_neg childless, if_neg childless, dropLast_concat] at ends
      split at ends
      · cases ends
      next one indexes left' right' child' found' =>
      obtain ⟨rfl, inside⟩ := SearchTrie.below_of_find compareTrieNode_eq_iff found'
      have next := below.trans inside
      obtain ⟨foundAt, keys⟩ := hypothesis sorted under next ends
      obtain ⟨indexes, -, here⟩ := (foundAt_of_below sorted under next).node
      exact ⟨foundAt, forall_mem_cons.mpr
        ⟨⟨_, indexes, here, mem_append_right _ mem_cons_self⟩, keys⟩⟩
    · rw [if_pos (show (SearchTrie.node key data left right child).child ≠ _ from inner),
        if_pos (show (SearchTrie.node key data left right child).child ≠ _ from inner)] at ends
      split at ends
      · cases ends
      next one indexes left' right' child' found' =>
      obtain ⟨rfl, next⟩ := SearchTrie.below_of_find compareTrieNode_eq_iff
        (show child.find compareTrieNode part = _ from found')
      have sorted' : child.Sorted compareTrieNode := (sorted.below below).child
      have under' := under.of_below compareTrieNode_eq_iff sorted below
      obtain ⟨foundAt, keys⟩ := hypothesis sorted' under' next ends
      obtain ⟨indexes, -, here⟩ := (foundAt_of_below sorted' under' next).node
      exact ⟨foundAt, forall_mem_cons.mpr
        ⟨⟨_, indexes, here, mem_append_right _ mem_cons_self⟩, keys⟩⟩

theorem WorkSpace.WellFormed.foundAt (wellFormed : space.WellFormed)
    {found : ParamTrie} {path : List CString}
    (finds : (space.findTrieNode start).node = some (found, path)) :
    FoundAt space found path ∧ (if start = rootKey then path = [rootKey] else
      (findLoop space.root [rootKey] space.rootLabel (subKeys start)).node = some (found, path) ∧
        ∀ part ∈ subKeys start, ∃ path indexes,
          space.root.lookup compareTrieNode path = some indexes ∧ part ∈ path) := by
  have finds_ : (space.findTrieNode_ start).node = some (found, path) := by
    rw [WorkSpace.findTrieNode] at finds
    split at finds
    · exact finds
    split at finds
    · exact finds
    · split at finds
      · cases finds
      · exact finds
  obtain ⟨label, child, root⟩ := wellFormed.root
  have sorted := wellFormed.sorted
  have under : SearchTrie.Under compareTrieNode space.root []
      (.node rootKey ⟨label, 0⟩ .leaf .leaf child) := by
    rw [root]
    exact .refl _
  rw [WorkSpace.findTrieNode_] at finds_
  split_ifs at finds_ with empty isRoot
  · obtain ⟨rfl, rfl⟩ := Prod.ext_iff.mp (some.inj finds_)
    rw [if_pos ((compareTrieNode_eq_iff _ _).mp isRoot).symm]
    refine ⟨?_, rfl⟩
    rw [root] at sorted ⊢
    exact foundAt_of_below sorted under (.refl _)
  · rw [if_neg fun same => isRoot ((compareTrieNode_eq_iff _ _).mpr same.symm)]
    cases ends : findLoop space.root [rootKey] space.rootLabel (subKeys start) with
    | mk node last =>
      rw [ends] at finds_
      obtain rfl : node = some (found, path) := finds_
      rw [root] at ends sorted
      obtain ⟨foundAt, keys⟩ := foundAt_of_findLoop sorted under (.refl _) ends
      exact ⟨foundAt, rfl, keys⟩

theorem findLoop_path {current : ParamTrie} {ends init more : List CString} {last other : CString}
    {label : Nat} {indexes : Indexes}
    (leads : current.child.lookup compareTrieNode (init ++ other :: more) = some indexes)
    (finds : (findLoop current path label (init ++ [last])).node = some (found, ends)) :
    ends = path ++ (init ++ [last]) := by
  induction init generalizing current path label with
  | nil =>
    have inner : current.child ≠ .leaf := fun none => by
      rw [none, SearchTrie.lookup_leaf] at leads
      cases leads
    rw [nil_append, findLoop] at finds
    split at finds
    · cases finds
    dsimp only at finds
    split at finds
    · cases finds
    · exact (Prod.ext_iff.mp (some.inj finds)).2.symm
  | cons part init hypothesis =>
    have inner : current.child ≠ .leaf := fun none => by
      rw [none, SearchTrie.lookup_leaf] at leads
      cases leads
    have rest : init ++ other :: more ≠ [] := append_ne_nil_of_right_ne_nil _ (cons_ne_nil _ _)
    rw [cons_append, SearchTrie.lookup_cons rest] at leads
    rw [cons_append, findLoop] at finds
    split at finds
    · cases finds
    dsimp only at finds
    split at finds
    · cases finds
    next isNode =>
    rw [isNode] at leads
    rw [hypothesis leads finds, append_assoc]
    rfl

/-! ### One workspace -/

theorem traversalSubTrieNode_eq (walkFunc : Indexes → List Nat) (trie : ParamTrie) :
    traversalSubTrieNode walkFunc trie = trie.walk.flatMap fun visit => walkFunc visit.2 := by
  induction trie with
  | leaf => rfl
  | node key current left right child leftHypothesis rightHypothesis childHypothesis =>
    rw [traversalSubTrieNode, SearchTrie.walk, flatMap_append, flatMap_append,
      flatMap_cons, flatMap_map, leftHypothesis, rightHypothesis, childHypothesis]

/-- The path of the node with which the traversal begins, or no path for the whole trie. -/
def base (space : WorkSpace) (start : CString) : List CString :=
  ((space.findTrieNode start).node.map Prod.snd).getD []

theorem traversalTrieNode_none (space : WorkSpace) (walkFunc : Indexes → List Nat) :
    traversalTrieNode space none walkFunc = traversalSubTrieNode walkFunc space.root := by
  rw [traversalTrieNode]
  cases space.root with
  | leaf => rfl
  | node key current left right child =>
    rw [traversalSubTrieNode, append_assoc _ (traversalSubTrieNode walkFunc left)]
    exact congrArg _ (if_pos rfl)

theorem traversalTrieNode_some (space : WorkSpace) {found : ParamTrie} {current : Indexes}
    (data : found.data? = some current) (walkFunc : Indexes → List Nat) :
    traversalTrieNode space (some found) walkFunc =
      walkFunc current ++ traversalSubTrieNode walkFunc found.child := by
  cases found with
  | leaf => exact nomatch data
  | node key other left right child =>
    obtain rfl := some.inj data
    rw [traversalTrieNode, getD_some]
    dsimp only
    rw [if_neg (some_ne_none _), append_nil]
    rfl

/-- The nodes that a traversal from a node comes to. -/
def visitsBelow (path : List CString) (current : Indexes) (child : ParamTrie) :
    List (List CString × Indexes) :=
  (path, current) :: child.walk.map fun visit => (path ++ visit.1, visit.2)

theorem FoundAt.nodup_visitsBelow (foundAt : FoundAt space found path) (current : Indexes) :
    ((visitsBelow path current found.child).map Prod.fst).Nodup := by
  rw [visitsBelow, map_cons, map_map]
  refine nodup_cons.mpr ⟨fun member => ?_, ?_⟩
  · obtain ⟨visit, inside, same⟩ := mem_map.mp member
    obtain ⟨_, _, begins, -⟩ := SearchTrie.head_mem_keys inside
    exact nomatch begins.symm.trans (append_right_eq_self.mp same)
  · have paths := (foundAt.sorted.nodup_walk compareTrieNode_eq_iff).map
      (append_right_injective path)
    rwa [map_map] at paths

theorem FoundAt.mem_visitsBelow {other : List CString} {current indexes : Indexes}
    (foundAt : FoundAt space found path)
    (data : found.data? = some current) : (other, indexes) ∈ visitsBelow path current found.child ↔
      space.root.lookup compareTrieNode other = some indexes ∧ path <+: other := by
  obtain ⟨current', data', here⟩ := foundAt.node
  obtain rfl : current = current' := some.inj (data.symm.trans data')
  rw [visitsBelow, mem_cons, mem_map]
  constructor
  · rintro (same | ⟨visit, inside, same⟩)
    · obtain ⟨rfl, rfl⟩ := Prod.mk.inj same
      exact ⟨here, prefix_rfl⟩
    · obtain ⟨rfl, rfl⟩ := Prod.mk.inj same
      obtain ⟨first, rest, begins, -⟩ := SearchTrie.head_mem_keys inside
      have more : visit.1 ≠ [] := begins ▸ cons_ne_nil first rest
      rw [foundAt.under visit.1 more]
      exact ⟨(foundAt.sorted.mem_walk compareTrieNode_eq_iff).mp inside, prefix_append _ _⟩
  · rintro ⟨holds, rest, rfl⟩
    by_cases last : rest = []
    · subst last
      rw [append_nil] at holds ⊢
      exact .inl (congrArg _ (some.inj (holds.symm.trans here)))
    · rw [foundAt.under rest last] at holds
      exact .inr ⟨(rest, indexes), (foundAt.sorted.mem_walk compareTrieNode_eq_iff).mpr holds, rfl⟩

theorem exists_visits (wellFormed : space.WellFormed) (nonempty : start ≠ []) :
    ∃ visits : List (List CString × Indexes), (visits.map Prod.fst).Nodup ∧
      (∀ path indexes, (path, indexes) ∈ visits ↔
        space.root.lookup compareTrieNode path = some indexes ∧ base space start <+: path) ∧
      ParamSpace.traversal start space =
        visits.flatMap fun visit => processParamTraversal space start visit.2 := by
  rw [ParamSpace.traversal, if_pos nonempty, if_neg nonempty, base]
  cases finds : (space.findTrieNode start).node with
  | none =>
    refine ⟨space.root.walk, wellFormed.sorted.nodup_walk compareTrieNode_eq_iff,
      fun path indexes => ?_, ?_⟩
    · rw [wellFormed.sorted.mem_walk compareTrieNode_eq_iff]
      exact (and_iff_left nil_prefix).symm
    · exact (traversalTrieNode_none space _).trans (traversalSubTrieNode_eq _ _)
  | some located =>
    obtain ⟨found, path⟩ := located
    obtain ⟨foundAt, -⟩ := wellFormed.foundAt finds
    obtain ⟨current, data, -⟩ := foundAt.node
    refine ⟨visitsBelow path current found.child, foundAt.nodup_visitsBelow current,
      fun other indexes => foundAt.mem_visitsBelow data, ?_⟩
    rw [map_some, traversalTrieNode_some space data, traversalSubTrieNode_eq, visitsBelow,
      flatMap_cons, flatMap_map]

theorem mem_processParamTraversal {current : Indexes} {index : Nat} :
    index ∈ processParamTraversal space start current ↔
      current.dataIndex = index ∧ index ≠ 0 ∧ ∃ entry, space.entryAt index = some entry ∧
        (start = ['#'] ∨ start <+: entry.key ++ '=' :: entry.value) := by
  rw [processParamTraversal]
  split
  · next unused =>
    refine iff_of_false not_mem_nil ?_
    rintro ⟨rfl, used, -⟩
    exact used unused
  · next used =>
    split
    · next missing =>
      refine iff_of_false not_mem_nil ?_
      rintro ⟨rfl, -, entry, present, -⟩
      exact nomatch missing.symm.trans present
    · next entry present =>
      split
      · next apart =>
        refine iff_of_false not_mem_nil ?_
        rintro ⟨rfl, -, other, present', either⟩
        obtain rfl := some.inj (present.symm.trans present')
        exact either.elim apart.1 apart.2
      · next matches_ =>
        rw [mem_singleton, eq_comm]
        refine (and_iff_left_of_imp ?_).symm
        rintro rfl
        refine ⟨used, entry, present, ?_⟩
        rw [not_and_or, not_not, not_not] at matches_
        exact matches_

theorem nodup_processParamTraversal (space : WorkSpace) (start : CString) (current : Indexes) :
    (processParamTraversal space start current).Nodup := by
  rw [processParamTraversal]
  split
  · exact nodup_nil
  split
  · exact nodup_nil
  · split
    · exact nodup_nil
    · exact nodup_singleton _

section

variable (wellFormed : space.WellFormed)
include wellFormed

theorem WorkSpace.WellFormed.path_eq {path : List CString} {current : Indexes} {entry : ParamNode}
    (leads : space.root.lookup compareTrieNode path = some current) (used : current.dataIndex ≠ 0)
    (present : space.entryAt current.dataIndex = some entry) :
    path = rootKey :: subKeys entry.key := by
  obtain ⟨other, present', isPath, -⟩ := wellFormed.entries path current leads used
  obtain rfl := some.inj (present.symm.trans present')
  exact isPath

/-- A parameter is held where its name leads. -/
theorem WorkSpace.WellFormed.holds_iff {index : Nat} {entry : ParamNode} : space.Holds index entry ↔
      ∃ current, space.root.lookup compareTrieNode (rootKey :: subKeys entry.key) = some current ∧
        current.dataIndex = index ∧ index ≠ 0 ∧ space.entryAt index = some entry := by
  constructor
  · rintro ⟨path, isIndex, used, present⟩
    rw [WorkSpace.dataIndexAt] at isIndex
    cases leads : space.root.lookup compareTrieNode path with
    | none =>
      rw [leads] at isIndex
      exact absurd isIndex.symm used
    | some current =>
      rw [leads] at isIndex
      subst isIndex
      exact ⟨current, wellFormed.path_eq leads used present ▸ leads, rfl, used, present⟩
  · rintro ⟨current, leads, isIndex, used, present⟩
    refine ⟨rootKey :: subKeys entry.key, ?_, used, present⟩
    rw [WorkSpace.dataIndexAt, leads]
    exact isIndex

theorem mem_traversal (nonempty : start ≠ [])
    {index : Nat} : index ∈ ParamSpace.traversal start space ↔
      ∃ entry, space.Holds index entry ∧ base space start <+: rootKey :: subKeys entry.key ∧
        (start = ['#'] ∨ start <+: entry.key ++ '=' :: entry.value) := by
  obtain ⟨visits, -, visited, calls⟩ := exists_visits wellFormed nonempty
  rw [calls, mem_flatMap]
  constructor
  · rintro ⟨⟨path, current⟩, member, called⟩
    obtain ⟨leads, below⟩ := (visited path current).mp member
    obtain ⟨rfl, used, entry, present, matching⟩ := mem_processParamTraversal.mp called
    have isPath := wellFormed.path_eq leads used present
    exact ⟨entry, wellFormed.holds_iff.mpr ⟨current, isPath ▸ leads, rfl, used, present⟩,
      isPath ▸ below, matching⟩
  · rintro ⟨entry, holds, below, matching⟩
    obtain ⟨current, leads, isIndex, used, present⟩ := wellFormed.holds_iff.mp holds
    exact ⟨(_, current), (visited _ current).mpr ⟨leads, below⟩,
      mem_processParamTraversal.mpr ⟨isIndex, used, entry, present, matching⟩⟩

theorem nodup_traversal (nonempty : start ≠ []) : (ParamSpace.traversal start space).Nodup := by
  obtain ⟨visits, once, visited, calls⟩ := exists_visits wellFormed nonempty
  rw [calls]
  refine nodup_flatMap.mpr ⟨fun visit _ => nodup_processParamTraversal space start visit.2, ?_⟩
  refine (pairwise_map.mp once).imp_of_mem fun {visit other} member member' apart => ?_
  refine disjoint_left.mpr fun index called called' => apart ?_
  obtain ⟨leads, -⟩ := (visited visit.1 visit.2).mp member
  obtain ⟨leads', -⟩ := (visited other.1 other.2).mp member'
  obtain ⟨rfl, used, entry, present, -⟩ := mem_processParamTraversal.mp called
  obtain ⟨same, -⟩ := mem_processParamTraversal.mp called'
  rw [wellFormed.path_eq leads used present,
    wellFormed.path_eq leads' (same ▸ used) (same ▸ present)]

/-- A parameter whose name has the prefix is below the base exactly when the prefix leads to no
node, is the name, or ends in front of a part of it. -/
theorem base_isPrefix_iff {index : Nat}
    {entry : ParamNode} (holds : space.Holds index entry) (begins : start <+: entry.key) :
    base space start <+: rootKey :: subKeys entry.key ↔
      ((space.findTrieNode start).node ≠ none → entry.key = start ∨ start.getLast? = some '.' ∨
        start ++ ['.'] <+: entry.key) := by
  obtain ⟨current, leads, rfl, used, present⟩ := wellFormed.holds_iff.mp holds
  obtain ⟨other, present', -, accepted, -⟩ := wellFormed.entries _ current leads used
  obtain rfl := some.inj (present.symm.trans present')
  rw [base]
  cases finds : (space.findTrieNode start).node with
  | none => exact iff_of_true nil_prefix fun found => absurd rfl found
  | some located =>
    obtain ⟨found, path⟩ := located
    obtain ⟨-, ends⟩ := wellFormed.foundAt finds
    rw [map_some, getD_some, forall_prop_of_true (some_ne_none _)]
    split at ends
    · next isRoot =>
      have named : entry.key = start := by
        rw [isRoot]
        refine accepted.eq_of_head ?_
        obtain ⟨rest, same⟩ := begins
        rw [← same, isRoot]
        rfl
      exact iff_of_true (ends ▸ cons_prefix_cons.mpr ⟨rfl, nil_prefix⟩) (.inl named)
    · obtain ⟨rest, isKey⟩ := begins
      obtain ⟨init, last, other, more, ofStart, ofName⟩ := subKeys_append start rest
      rw [wellFormed.lookup_root _ (subKeys_ne_nil _), ← isKey, ofName] at leads
      rw [ofStart] at ends
      have isPath : path = rootKey :: subKeys start := ofStart ▸ findLoop_path leads ends.1
      rw [isPath, ← isKey, cons_prefix_cons, and_iff_right rfl,
        subKeys_isPrefix_iff (isKey ▸ accepted.last), append_right_eq_self,
        prefix_append_right_inj]
      refine or_congr_right (or_congr_right ?_)
      cases rest with
      | nil => exact iff_of_false nofun fun begins => nomatch prefix_nil.mp begins
      | cons first rest =>
        rw [cons_prefix_cons, and_iff_left nil_prefix, List.head?_cons, Option.some.injEq, eq_comm]

theorem findTrieNode_of_equals
    (noEquals : space.NoEquals) (equals : '=' ∈ start) : (space.findTrieNode start).node = none := by
  cases finds : (space.findTrieNode start).node with
  | none => rfl
  | some located =>
    obtain ⟨-, ends⟩ := wellFormed.foundAt finds
    split at ends
    · next isRoot => exact absurd (isRoot ▸ equals) (by decide)
    · obtain ⟨part, isPart, inside⟩ := exists_part_of_mem (by decide) equals
      obtain ⟨path, indexes, holds, member⟩ := ends.2 part isPart
      exact absurd inside (noEquals path indexes holds part member)

theorem base_isPrefix_of_match (noEquals : space.NoEquals) {entry : ParamNode}
    (matching : start = ['#'] ∨ start <+: entry.key ++ '=' :: entry.value)
    (apart : ¬ start <+: entry.key) : base space start <+: rootKey :: subKeys entry.key := by
  rw [base]
  rcases matching with isRoot | begins
  · cases finds : (space.findTrieNode start).node with
    | none => exact nil_prefix
    | some located =>
      obtain ⟨-, ends⟩ := wellFormed.foundAt finds
      rw [if_pos (show start = rootKey from isRoot)] at ends
      rw [map_some, ends]
      exact cons_prefix_cons.mpr ⟨rfl, nil_prefix⟩
  · have equals : '=' ∈ start := by
      have nameAndEquals : entry.key ++ ['='] <+: entry.key ++ '=' :: entry.value :=
        ⟨entry.value, by rw [append_assoc, singleton_append]⟩
      rcases prefix_or_prefix_of_prefix begins nameAndEquals with short | long
      · rcases prefix_concat_iff.mp short with same | inName
        · exact same ▸ mem_append_right _ mem_cons_self
        · exact absurd inName apart
      · exact long.subset (mem_append_right _ mem_cons_self)
    rw [findTrieNode_of_equals wellFormed noEquals equals]
    exact nil_prefix

end

/-! ### All workspaces -/

variable {paramSpace : ParamSpace}

theorem mem_of_mem_walked {member : CString × WorkSpace} (inside : member ∈ paramSpace.walked) :
    member ∈ paramSpace.workSpaceList := by
  rw [ParamSpace.walked] at inside
  split at inside
  · exact nomatch inside
  next first rest whole =>
  rw [whole]
  split at inside
  · exact mem_cons_of_mem first inside
  · exact inside

theorem eq_of_mem_workSpaceList {name : CString} {other : WorkSpace}
    (member : (name, space) ∈ paramSpace.workSpaceList)
    (member' : (name, other) ∈ paramSpace.workSpaceList) : space = other :=
  congrArg Prod.snd (inj_on_of_nodup_map paramSpace.distinct member member' rfl)

theorem systemTraversalParameter_of_permits (nonempty : start ≠ [])
    (permits : paramSpace.Permits start) :
    paramSpace.systemTraversalParameter start = paramSpace.walked.flatMap fun member =>
      (ParamSpace.traversal start member.2).map (member.1, ·) := by
  obtain ⟨space, isSpace⟩ := Option.ne_none_iff_exists'.mp permits.2
  rw [ParamSpace.systemTraversalParameter, if_neg nonempty, ParamSpace.readParamWithCheck,
    permits.1, if_neg nofun, isSpace]
  dsimp only
  cases (space.findTrieNode start).node with
  | none => rfl
  | some located =>
    by_cases used : space.findDataIndex start ≠ 0
    · rw [if_pos used]
    · rw [if_neg used]

theorem systemTraversalParameter_of_not_permits (nonempty : start ≠ [])
    (refused : ¬ paramSpace.Permits start) : paramSpace.systemTraversalParameter start = [] := by
  rw [ParamSpace.systemTraversalParameter, if_neg nonempty, ParamSpace.readParamWithCheck]
  cases permitted : paramSpace.checkParamPermission start with
  | false => rfl
  | true =>
    have missing : paramSpace.getWorkSpace start = none :=
      Decidable.byContradiction fun found => refused ⟨permitted, found⟩
    rw [if_neg nofun, missing]

theorem mem_systemTraversalParameter (nonempty : start ≠ []) {name : CString} {index : Nat} :
    (name, index) ∈ paramSpace.systemTraversalParameter start ↔ paramSpace.Permits start ∧
      ∃ space, (name, space) ∈ paramSpace.walked ∧ index ∈ ParamSpace.traversal start space := by
  by_cases permits : paramSpace.Permits start
  · rw [systemTraversalParameter_of_permits nonempty permits, and_iff_right permits,
      mem_flatMap]
    constructor
    · rintro ⟨member, walked, called⟩
      obtain ⟨other, inside, same⟩ := mem_map.mp called
      obtain ⟨rfl, rfl⟩ := Prod.mk.inj same
      exact ⟨member.2, walked, inside⟩
    · rintro ⟨space, walked, called⟩
      exact ⟨(name, space), walked, mem_map.mpr ⟨index, called, rfl⟩⟩
  · rw [systemTraversalParameter_of_not_permits nonempty permits]
    exact iff_of_false not_mem_nil fun both => permits both.1

theorem nodup_walked : (paramSpace.walked.map Prod.fst).Nodup := by
  have distinct := paramSpace.distinct
  rw [ParamSpace.walked]
  split
  · exact nodup_nil
  next first rest whole =>
  rw [whole] at distinct
  split
  · exact (nodup_cons.mp distinct).2
  · exact distinct

theorem nodup_systemTraversalParameter (nonempty : start ≠ []) :
    (paramSpace.systemTraversalParameter start).Nodup := by
  by_cases permits : paramSpace.Permits start
  · rw [systemTraversalParameter_of_permits nonempty permits]
    refine nodup_flatMap.mpr ⟨fun member walked => ?_, ?_⟩
    · have wellFormed := (paramSpace.content member (mem_of_mem_walked walked)).wellFormed.1
      exact (nodup_traversal wellFormed nonempty).map (Prod.mk_right_injective member.1)
    · refine (pairwise_map.mp nodup_walked).imp fun {member other} apart => ?_
      refine disjoint_left.mpr fun call called called' => apart ?_
      obtain ⟨index, -, rfl⟩ := mem_map.mp called
      obtain ⟨index', -, same⟩ := mem_map.mp called'
      exact (Prod.mk.inj same).1.symm
  · rw [systemTraversalParameter_of_not_permits nonempty permits]
    exact nodup_nil

theorem eq_of_holds {index : Nat} {entry other : ParamNode}
    (holds : space.Holds index entry) (holds' : space.Holds index other) : entry = other := by
  obtain ⟨_, -, -, present⟩ := holds
  obtain ⟨_, -, -, present'⟩ := holds'
  exact some.inj (present.symm.trans present')

/-- The traversal is exact if and only if no parameter is missed and none is taken that does not
have the prefix. -/
theorem exact_iff (paramSpace : ParamSpace) (start : CString) (nonempty : start ≠ []) :
    Exact paramSpace start ↔ ExactWhen paramSpace start := by
  have formed : ∀ member ∈ paramSpace.workSpaceList, member.2.WellFormed ∧ member.2.NoEquals :=
    fun member inside => (paramSpace.content member inside).wellFormed
  constructor
  · rintro ⟨-, each⟩
    refine ⟨fun member inside index entry holds begins => ?_,
      fun permits member walked index entry holds matching => ?_⟩
    · obtain ⟨wellFormed, -⟩ := formed member inside
      have called := (each member.1 index).mpr ⟨member.2, entry, inside, holds, begins⟩
      obtain ⟨permits, space, walked, visited⟩ := (mem_systemTraversalParameter nonempty).mp called
      obtain rfl := eq_of_mem_workSpaceList inside (mem_of_mem_walked walked)
      obtain ⟨other, holds', below, -⟩ := (mem_traversal wellFormed nonempty).mp visited
      obtain rfl := eq_of_holds holds holds'
      exact ⟨permits, walked, (base_isPrefix_iff wellFormed holds begins).mp below⟩
    · have inside := mem_of_mem_walked walked
      obtain ⟨wellFormed, noEquals⟩ := formed member inside
      refine Decidable.byContradiction fun apart => ?_
      have visited := (mem_traversal wellFormed nonempty).mpr
        ⟨entry, holds, base_isPrefix_of_match wellFormed noEquals matching apart, matching⟩
      have called := (mem_systemTraversalParameter nonempty).mpr ⟨permits, member.2, walked, visited⟩
      obtain ⟨space, other, inside', holds', begins⟩ := (each member.1 index).mp called
      obtain rfl := eq_of_mem_workSpaceList inside inside'
      exact apart (eq_of_holds holds holds' ▸ begins)
  · rintro ⟨missed, taken⟩
    refine ⟨nodup_systemTraversalParameter nonempty, fun name index => ?_⟩
    rw [mem_systemTraversalParameter nonempty]
    constructor
    · rintro ⟨permits, space, walked, visited⟩
      have inside := mem_of_mem_walked walked
      obtain ⟨entry, holds, -, matching⟩ := (mem_traversal (formed _ inside).1 nonempty).mp visited
      exact ⟨space, entry, inside, holds, taken permits _ walked index entry holds matching⟩
    · rintro ⟨space, entry, inside, holds, begins⟩
      obtain ⟨permits, walked, below⟩ := missed _ inside index entry holds begins
      refine ⟨permits, space, walked, (mem_traversal (formed _ inside).1 nonempty).mpr
        ⟨entry, holds, (base_isPrefix_iff (formed _ inside).1 holds begins).mpr below, .inr ?_⟩⟩
      exact begins.trans (List.prefix_append _ _)

/-- A bare workspace of one KiB. -/
def bareSpace : WorkSpace where
  root := .node rootKey Indexes.zero .leaf .leaf .leaf
  entries := fun _ => none
  labels := fun _ => none
  commitId := 0
  currOffset := trieNodeSize rootKey
  dataSize := 1024

/-- The workspace with the parameters `a` and `ab`. -/
def sampleSpace : WorkSpace :=
  ((bareSpace.addParam paramTypeString ['a'] ['1']).1.addParam paramTypeString ['a', 'b'] ['2']).1

theorem content_sampleSpace : Content sampleSpace :=
  .add (.add (.init (show initWorkSpace 1024 = some bareSpace from rfl)) (by decide)
    (by decide) (by decide)) (by decide) (by decide) (by decide)

/-- A process with this workspace, in a build without SELinux. -/
def sampleParamSpace : ParamSpace where
  workSpaceList := [("param_storage".toList, sampleSpace)]
  tmpName := fun _ => "param_storage".toList
  checkParamPermission := fun _ => true
  distinct := nodup_singleton _
  content := fun _ member => mem_singleton.mp member ▸ content_sampleSpace

theorem exact_iff_sample :
    Exact sampleParamSpace ['a', '.'] ↔ ExactWhen sampleParamSpace ['a', '.'] :=
  exact_iff sampleParamSpace ['a', '.'] (by decide)

/-- The parameter `ab` is missed for the prefix `a`. -/
theorem sibling_missed : ¬ Exact sampleParamSpace ['a'] := by
  rintro ⟨-, each⟩
  have calls : sampleParamSpace.systemTraversalParameter ['a'] =
      [("param_storage".toList, 56)] := by decide
  have held : sampleSpace.Holds 192 ⟨0, paramTypeString, ['a', 'b'], ['2']⟩ :=
    ⟨[['#'], ['a', 'b']], by decide, by decide, by decide⟩
  have missed := (each "param_storage".toList 192).mpr
    ⟨sampleSpace, _, mem_cons_self, held, by decide⟩
  rw [calls] at missed
  exact absurd missed (by decide)

end TowerSafe.Param
