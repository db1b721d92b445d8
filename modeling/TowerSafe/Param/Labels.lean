/-
This file is about the access labels of the parameter workspace. The label that a search reports is
that of the last labelled node it comes to. The nodes it comes to are those of the parts of the name
as far as they exist and, when the last of them has no children, others among its siblings: as long
as none of those has a label, the reported label is that of the longest labelled prefix of the name.
-/

import TowerSafe.Param.Store

namespace TowerSafe.Param

open Library List Option

/-! ### The nodes of a search -/

/-- The nodes that the loop of `FindTrieNode_` comes to, with their paths. -/
def findTrail (current : ParamTrie) (path : List CString) :
    List CString → List (List CString × Indexes)
  | [] => []
  | part :: rest =>
      if part = [] then []
      else
        let next := if current.child ≠ .leaf then current.child else current
        let above := if current.child ≠ .leaf then path else path.dropLast
        match next.find compareTrieNode part with
        | .leaf => []
        | .node key indexes left right child =>
            (above ++ [part], indexes) ::
              findTrail (.node key indexes left right child) (above ++ [part]) rest

/-- The label after a node: its own, if it has one. -/
def matchNode (matchLabel : Nat) (visit : List CString × Indexes) : Nat :=
  if visit.2.labelIndex ≠ 0 then visit.2.labelIndex else matchLabel

theorem findLoop_matchLabel (current : ParamTrie) (path : List CString) (label : Nat)
    (parts : List CString) : (findLoop current path label parts).matchLabel =
      (findTrail current path parts).foldl matchNode label := by
  induction parts generalizing current path label with
  | nil => rfl
  | cons part rest hypothesis =>
    rw [findLoop, findTrail]
    by_cases empty : part = []
    · rw [if_pos empty, if_pos empty]
      rfl
    rw [if_neg empty, if_neg empty]
    dsimp only
    cases (if current.child ≠ .leaf then current.child else current).find compareTrieNode part with
    | leaf => rfl
    | node key indexes left right child =>
      rw [hypothesis]
      rfl

theorem findLoop_last {current found : ParamTrie} {path ends : List CString} {label last : Nat}
    {parts : List CString} (more : parts ≠ [])
    (finds : findLoop current path label parts = ⟨some (found, ends), last⟩) :
    (findTrail current path parts).length = parts.length ∧
      ∃ indexes, found.data? = some indexes ∧
        (findTrail current path parts).getLast? = some (ends, indexes) := by
  induction parts generalizing current path label with
  | nil => exact absurd rfl more
  | cons part rest hypothesis =>
    rw [findLoop] at finds
    rw [findTrail]
    split at finds
    · cases finds
    rename_i some_
    rw [if_neg some_]
    dsimp only at finds ⊢
    cases found' : (if current.child ≠ .leaf then current.child else current).find
        compareTrieNode part with
    | leaf =>
      rw [found'] at finds
      cases finds
    | node key indexes left right child =>
      rw [found'] at finds
      by_cases final : rest = []
      · subst final
        obtain ⟨same, -⟩ := Found.mk.inj finds
        obtain ⟨rfl, rfl⟩ := Prod.ext_iff.mp (some.inj same)
        exact ⟨rfl, indexes, rfl, rfl⟩
      · obtain ⟨length, data, final', last'⟩ := hypothesis final finds
        refine ⟨by rw [length_cons, length, length_cons], data, final', ?_⟩
        rw [List.getLast?_cons, last']
        rfl

theorem findTrail_sorted {current : ParamTrie} {path parts : List CString} (begun : path ≠ []) :
    (∀ visit ∈ findTrail current path parts, path.length ≤ visit.1.length) ∧
      (findTrail current path parts).Pairwise fun first second =>
        first.1.length ≤ second.1.length := by
  induction parts generalizing current path with
  | nil => exact ⟨nofun, .nil⟩
  | cons part rest hypothesis =>
    rw [findTrail]
    split
    · exact ⟨nofun, .nil⟩
    dsimp only
    split
    · exact ⟨nofun, .nil⟩
    rename_i key indexes left right child found
    have deeper : path.length ≤
        ((if current.child ≠ .leaf then path else path.dropLast) ++ [part]).length := by
      split <;> simp only [length_append, length_singleton, length_dropLast] <;>
        omega
    obtain ⟨below, sorted⟩ := @hypothesis (.node key indexes left right child)
      ((if current.child ≠ .leaf then path else path.dropLast) ++ [part]) (by simp)
    refine ⟨fun visit member => ?_, pairwise_cons.mpr ⟨fun visit member => ?_, sorted⟩⟩
    · rcases mem_cons.mp member with rfl | later
      · exact deeper
      · exact Nat.le_trans deeper (below visit later)
    · exact below visit member

theorem findTrail_known {siblings : ParamTrie} {key : CString} {data : Indexes}
    {left right child : ParamTrie} {above parts : List CString}
    {known : List CString → Indexes → Prop} (sorted : siblings.Sorted compareTrieNode)
    (below : SearchTrie.Below siblings (.node key data left right child))
    (knows : ∀ path indexes, siblings.lookup compareTrieNode path = some indexes →
      known (above ++ path) indexes) :
    ∀ visit ∈ findTrail (.node key data left right child) (above ++ [key]) parts,
      known visit.1 visit.2 := by
  induction parts generalizing siblings key data left right child above with
  | nil => exact forall_mem_nil _
  | cons part rest hypothesis =>
    rw [findTrail]
    split
    · exact forall_mem_nil _
    dsimp only
    by_cases inner : child = .leaf
    · subst inner
      rw [if_neg (by simp [SearchTrie.child]), dropLast_concat]
      split
      · exact forall_mem_nil _
      rename_i one indexes left' right' child' found'
      obtain ⟨rfl, reached⟩ := SearchTrie.below_of_find compareTrieNode_eq_iff found'
      have inside := below.trans reached
      intro visit member
      rcases mem_cons.mp member with rfl | later
      · exact knows [one] indexes (sorted.lookup_key compareTrieNode_eq_iff inside)
      · exact hypothesis sorted inside knows visit later
    · rw [if_pos (show (SearchTrie.node key data left right child).child ≠ _ from inner),
        if_pos (show (SearchTrie.node key data left right child).child ≠ _ from inner)]
      split
      · exact forall_mem_nil _
      rename_i one indexes left' right' child' found'
      have found : child.find compareTrieNode part = .node one indexes left' right' child' := found'
      obtain ⟨rfl, inside⟩ := SearchTrie.below_of_find compareTrieNode_eq_iff found
      have knows' : ∀ path indexes, child.lookup compareTrieNode path = some indexes →
          known ((above ++ [key]) ++ path) indexes := by
        intro path indexes holds
        rw [append_assoc]
        exact knows (key :: path) indexes
          (sorted.lookup_below compareTrieNode_eq_iff below holds)
      intro visit member
      rcases mem_cons.mp member with rfl | later
      · refine knows' [one] indexes ?_
        rw [SearchTrie.lookup, found]
        rfl
      · exact hypothesis (sorted.below below).child inside knows' visit later

theorem findTrail_complete {current : ParamTrie} {path parts leads : List CString}
    {indexes : Indexes} (proper : ∀ part ∈ parts, part ≠ []) (begins : leads <+: parts)
    (holds : current.child.lookup compareTrieNode leads = some indexes) :
    (path ++ leads, indexes) ∈ findTrail current path parts := by
  induction parts generalizing current path leads with
  | nil =>
    rw [prefix_nil.mp begins] at holds
    cases holds
  | cons part rest hypothesis =>
    cases leads with
    | nil => cases holds
    | cons first others =>
      obtain ⟨rfl, begin_⟩ := cons_prefix_cons.mp begins
      have inner : current.child ≠ .leaf := by
        intro leaf
        rw [leaf, SearchTrie.lookup_leaf] at holds
        cases holds
      rw [findTrail, if_neg (proper first mem_cons_self), if_pos inner, if_pos inner]
      dsimp only
      by_cases last : others = []
      · subst last
        rw [SearchTrie.lookup] at holds
        cases found : current.child.find compareTrieNode first with
        | leaf =>
          rw [found] at holds
          cases holds
        | node key data left right child =>
          rw [found] at holds
          obtain rfl := some.inj holds
          exact mem_cons_self
      · rw [SearchTrie.lookup_cons last] at holds
        cases found : current.child.find compareTrieNode first with
        | leaf =>
          rw [found, SearchTrie.child_leaf, SearchTrie.lookup_leaf] at holds
          cases holds
        | node key data left right child =>
          rw [found] at holds
          have member := @hypothesis (.node key data left right child) (path ++ [first])
            others (fun one inside => proper one (mem_cons_of_mem _ inside)) begin_ holds
          rw [append_assoc] at member
          exact mem_cons_of_mem _ member

theorem foldl_matchNode_longest {visits : List (List CString × Indexes)} {label : Nat}
    {first whole : List CString} {index : List CString → Nat}
    (sorted : visits.Pairwise fun one other => one.1.length ≤ other.1.length)
    (deep : ∀ visit ∈ visits, first.length ≤ visit.1.length)
    (agrees : ∀ visit ∈ visits, index visit.1 = visit.2.labelIndex)
    (stays : ∀ visit ∈ visits, visit.2.labelIndex ≠ 0 → visit.1 <+: whole)
    (begins : first <+: whole) (labelled : index first ≠ 0) (same : label = index first) :
    ∃ path, path <+: whole ∧ index path ≠ 0 ∧ visits.foldl matchNode label = index path ∧
      first.length ≤ path.length ∧
        ∀ visit ∈ visits, visit.2.labelIndex ≠ 0 → visit.1.length ≤ path.length := by
  induction visits generalizing first label with
  | nil => exact ⟨first, begins, labelled, same, Nat.le_refl _, nofun⟩
  | cons visit rest hypothesis =>
    obtain ⟨below, sorted⟩ := pairwise_cons.mp sorted
    have agrees' := fun one member => agrees one (mem_cons_of_mem visit member)
    have stays' := fun one member => stays one (mem_cons_of_mem visit member)
    have here := agrees visit mem_cons_self
    rw [foldl_cons, matchNode]
    by_cases marked : visit.2.labelIndex = 0
    · obtain ⟨path, leads, some_, folds, longer, longest⟩ := hypothesis sorted
        (fun one member => deep one (mem_cons_of_mem _ member)) agrees' stays' begins labelled
        same
      rw [if_neg (not_not.mpr marked)]
      refine ⟨path, leads, some_, folds, longer, fun one member other => ?_⟩
      rcases mem_cons.mp member with rfl | later
      · exact absurd marked other
      · exact longest one later other
    · obtain ⟨path, leads, some_, folds, longer, longest⟩ := hypothesis sorted below
        agrees' stays' (stays visit mem_cons_self marked) (here.symm ▸ marked) here.symm
      rw [if_pos marked]
      refine ⟨path, leads, some_, folds,
        Nat.le_trans (deep visit mem_cons_self) longer, fun one member other => ?_⟩
      rcases mem_cons.mp member with rfl | later
      · exact longer
      · exact longest one later other

/-- The path of the node of a name, which for the key of the root is the root. -/
def namePath (name : CString) : List CString :=
  if name = rootKey then [rootKey] else rootKey :: subKeys name

/-- The longest beginning of a path that has a label. -/
structure Nearest (labelled : List (List CString)) (path nearest : List CString) : Prop where
  member : nearest ∈ labelled
  begins : nearest <+: path
  longest : ∀ other ∈ labelled, other <+: path → other.length ≤ nearest.length

namespace WorkSpace

variable {space next : WorkSpace} {name : CString}

/-- The nodes that the search for a name comes to behind the root. -/
def trail (space : WorkSpace) (name : CString) : List (List CString × Indexes) :=
  if name = rootKey then [] else findTrail space.root [rootKey] (subKeys name)

/-- The label index of the node at a path, zero when there is no node. -/
def labelIndexAt (space : WorkSpace) (path : List CString) : Nat :=
  (space.root.lookup compareTrieNode path).elim 0 Indexes.labelIndex

/-- The labelled nodes that the search for a name comes to are on the path of the name. -/
def StaysOnPath (space : WorkSpace) (name : CString) : Prop :=
  ∀ visit ∈ space.trail name, visit.2.labelIndex ≠ 0 → visit.1 <+: namePath name

instance (space : WorkSpace) (name : CString) : Decidable (space.StaysOnPath name) := by
  unfold StaysOnPath
  infer_instance

/-- The search for a name finds a node for every part of it, the last of them without a parameter,
though the name has no node. -/
def GoesAstray (space : WorkSpace) (name : CString) : Prop :=
  name ≠ rootKey ∧ space.nodeAt (subKeys name) = none ∧
    (space.trail name).length = (subKeys name).length ∧
      (space.trail name).getLast?.all fun visit => visit.2.dataIndex = 0

instance (space : WorkSpace) (name : CString) : Decidable (space.GoesAstray name) := by
  unfold GoesAstray
  infer_instance

theorem rootKey_compare : compareTrieNode rootKey name = .eq ↔ name = rootKey :=
  (compareTrieNode_eq_iff _ _).trans eq_comm

theorem findTrieNode_matchLabel (space : WorkSpace) (name : CString) :
    (space.findTrieNode name).matchLabel = (space.findTrieNode_ name).matchLabel := by
  rw [findTrieNode]
  split
  · rfl
  split
  · rfl
  split <;> rfl

theorem matchLabel_eq (space : WorkSpace) (some_ : name ≠ []) :
    (space.findTrieNode name).matchLabel = (space.trail name).foldl matchNode space.rootLabel := by
  rw [findTrieNode_matchLabel, findTrieNode_, if_neg some_, trail]
  by_cases named : name = rootKey
  · rw [if_pos (rootKey_compare.mpr named), if_pos named]
    rfl
  · rw [if_neg (named ∘ rootKey_compare.mp), if_neg named]
    exact findLoop_matchLabel ..

theorem WellFormed.rootLabel_eq (wellFormed : space.WellFormed) :
    space.rootLabel = space.labelIndexAt [rootKey] := by
  obtain ⟨label, child, root⟩ := wellFormed.root
  have self : compareTrieNode rootKey rootKey = .eq := by decide
  rw [rootLabel, labelIndexAt, SearchTrie.lookup, root, SearchTrie.find, self]
  rfl

theorem WellFormed.trail_lookup (wellFormed : space.WellFormed) :
    ∀ visit ∈ space.trail name, space.root.lookup compareTrieNode visit.1 = some visit.2 := by
  rw [trail]
  split
  · exact nofun
  obtain ⟨label, child, root⟩ := wellFormed.root
  have sorted := wellFormed.sorted
  rw [root] at sorted ⊢
  exact @findTrail_known _ rootKey ⟨label, 0⟩ .leaf .leaf child [] (subKeys name)
    (fun path indexes => SearchTrie.lookup compareTrieNode path _ = some indexes) sorted
    (.refl _) fun _ _ holds => holds

theorem WellFormed.trail_complete (wellFormed : space.WellFormed)
    (proper : ∀ part ∈ subKeys name, part ≠ []) {path : List CString} {indexes : Indexes}
    (begins : path <+: namePath name)
    (holds : space.root.lookup compareTrieNode path = some indexes) :
    path = [rootKey] ∨ (path, indexes) ∈ space.trail name := by
  cases path with
  | nil => exact absurd holds nofun
  | cons first rest =>
    rw [namePath] at begins
    rw [trail]
    split at begins
    · obtain ⟨rfl, ends⟩ := cons_prefix_cons.mp begins
      exact .inl (congrArg _ (prefix_nil.mp ends))
    rw [if_neg ‹_›]
    obtain ⟨rfl, remaining⟩ := cons_prefix_cons.mp begins
    by_cases last : rest = []
    · exact .inl (congrArg _ last)
    · rw [wellFormed.lookup_root rest last] at holds
      exact .inr (@findTrail_complete space.root [rootKey] _ _ _ proper remaining holds)

theorem trail_sorted (space : WorkSpace) (name : CString) :
    (∀ visit ∈ space.trail name, [rootKey].length ≤ visit.1.length) ∧
      (space.trail name).Pairwise fun first second => first.1.length ≤ second.1.length := by
  rw [trail]
  split
  · exact ⟨nofun, .nil⟩
  · exact findTrail_sorted (cons_ne_nil _ _)

theorem WellFormed.matchLabel_nearest (wellFormed : space.WellFormed) (some_ : name ≠ [])
    (proper : ∀ part ∈ subKeys name, part ≠ []) (stays : space.StaysOnPath name)
    (rooted : space.labelIndexAt [rootKey] ≠ 0) {labelled : List (List CString)}
    (labels : ∀ path, space.labelIndexAt path ≠ 0 ↔ path ∈ labelled) :
    ∃ nearest, Nearest labelled (namePath name) nearest ∧
      (space.findTrieNode name).matchLabel = space.labelIndexAt nearest := by
  have begins : [rootKey] <+: namePath name := by
    rw [namePath]
    split
    · exact prefix_refl _
    · exact ⟨subKeys name, rfl⟩
  obtain ⟨deep, sorted⟩ := space.trail_sorted name
  obtain ⟨nearest, leads, marked, folds, longer, longest⟩ :=
    @foldl_matchNode_longest (space.trail name) space.rootLabel [rootKey] (namePath name)
      space.labelIndexAt sorted deep
      (fun visit member => by rw [labelIndexAt, wellFormed.trail_lookup visit member]; rfl)
      stays begins rooted wellFormed.rootLabel_eq
  refine ⟨nearest, ⟨(labels nearest).mp marked, leads, fun other member begins => ?_⟩,
    (space.matchLabel_eq some_).trans folds⟩
  have labelled := (labels other).mpr member
  rw [labelIndexAt] at labelled
  cases holds : space.root.lookup compareTrieNode other with
  | none =>
    rw [holds] at labelled
    exact absurd rfl labelled
  | some indexes =>
    rw [holds] at labelled
    rcases wellFormed.trail_complete proper begins holds with rfl | member
    · exact longer
    · exact longest _ member labelled

/-! ### Labels that are kept -/

/-- What does not change a label. -/
structure SameLabels (space next : WorkSpace) : Prop where
  labels : next.labels = space.labels
  index : ∀ path, next.labelIndexAt path = space.labelIndexAt path
  dataSize : next.dataSize = space.dataSize
  currOffset : space.currOffset ≤ next.currOffset

theorem SameLabels.refl (space : WorkSpace) : SameLabels space space :=
  ⟨rfl, fun _ => rfl, rfl, Nat.le_refl _⟩

theorem SameLabels.trans {last : WorkSpace} (first : SameLabels space next)
    (second : SameLabels next last) : SameLabels space last :=
  ⟨second.labels.trans first.labels, fun path => (second.index path).trans (first.index path),
    second.dataSize.trans first.dataSize, Nat.le_trans first.currOffset second.currOffset⟩

theorem SameLabels.labelAt (same : SameLabels space next) (index : Nat) :
    next.labelAt index = space.labelAt index := by
  rw [WorkSpace.labelAt, WorkSpace.labelAt, same.labels, same.dataSize]

theorem Extends.sameLabels (extends_ : Extends space next) : SameLabels space next := by
  refine ⟨extends_.labels, fun path => ?_, extends_.dataSize, extends_.currOffset⟩
  rw [labelIndexAt, labelIndexAt]
  cases before : space.root.lookup compareTrieNode path with
  | some indexes => rw [extends_.kept path indexes before]
  | none =>
    cases after : next.root.lookup compareTrieNode path with
    | none => rfl
    | some indexes =>
      rcases extends_.added path indexes after with old | ⟨-, rfl⟩
      · exact absurd (before.symm.trans old) nofun
      · rfl

theorem labelIndexAt_saveIndex (space : WorkSpace) (change : Indexes → Indexes)
    (path other : List CString) : (space.saveIndex path change).labelIndexAt other =
      if other = path then
        ((space.root.lookup compareTrieNode path).map change).elim 0 Indexes.labelIndex
      else space.labelIndexAt other := by
  rw [labelIndexAt, saveIndex]
  split
  · rename_i same
    rw [same, SearchTrie.lookup_alterAt_self]
  · rename_i different
    rw [SearchTrie.lookup_alterAt_ne compareTrieNode_eq_iff change different]
    rfl

theorem writeParam_sameLabels (wellFormed : space.WellFormed) (name value : CString)
    (onlyAdd : Bool) : SameLabels space (space.writeParam name value onlyAdd).1 := by
  have adds : ∀ type, SameLabels space (space.addParam type name value).1 := by
    intro type
    obtain ⟨-, extends_⟩ := wellFormed.addTrieNode name
    rw [addParam]
    split <;> rename_i added nodes <;> rw [nodes] at extends_
    · exact extends_.sameLabels
    split
    · exact extends_.sameLabels
    rename_i indexes leads
    split
    · exact extends_.sameLabels
    split
    · exact extends_.sameLabels
    rename_i withEntry offset allocated
    rw [addParamNode, ite_none_right_eq_some] at allocated
    obtain ⟨-, allocated⟩ := allocated
    obtain ⟨rfl, rfl⟩ := Prod.ext_iff.mp (some.inj allocated)
    refine extends_.sameLabels.trans ⟨rfl, fun path => ?_, rfl, Nat.le_add_right _ _⟩
    refine (labelIndexAt_saveIndex _ _ _ path).trans ?_
    split
    · rename_i same
      rw [same, labelIndexAt]
      rw [leads]
      rfl
    · rfl
  rw [writeParam]
  dsimp only
  split
  · split
    · exact .refl space
    split
    · exact .refl space
    split
    · rw [updateParam]
      split
      · exact .refl space
      split
      · exact .refl space
      · exact ⟨rfl, fun _ => rfl, rfl, Nat.le_refl _⟩
    · exact .refl space
  · split
    · exact adds _
    · exact .refl space

/-! ### Adding a label -/

theorem pathLength_subKeys_le (name : CString) : pathLength (subKeys name) ≤ name.length + 1 := by
  fun_induction subKeys name with
  | case1 => exact Nat.le_refl _
  | case2 => decide
  | case3 rest more hypothesis =>
    simp only [pathLength, map_cons, sum_cons, length_nil,
      length_cons] at hypothesis ⊢
    omega
  | case4 character rest _ _ none hypothesis => exact absurd none (subKeys_ne_nil rest)
  | case5 character rest single dotted part parts found hypothesis =>
    rw [found] at hypothesis
    simp only [pathLength, map_cons, sum_cons, length_cons] at *
    omega

theorem of_checkParamName (checks : checkParamName name true = .success) :
    name.length < 96 ∧ name ≠ [] ∧ ∀ part ∈ subKeys name, part ≠ [] := by
  rw [checkParamName] at checks
  split at checks
  · cases checks
  rename_i short
  refine ⟨Nat.lt_of_not_le short, ?_⟩
  split at checks
  · rename_i named
    subst named
    decide
  split at checks
  · cases checks
  rename_i ends
  split at checks
  case isFalse => cases checks
  rename_i chars
  rw [not_or, not_or] at ends
  have some_ : name ≠ [] := fun empty => ends.1 (by simp [empty])
  exact ⟨some_, subKeys_proper chars ends.2.1 some_⟩

theorem WellFormed.findTrieNode_path (wellFormed : space.WellFormed)
    (checks : checkParamName name true = .success) (straight : ¬space.GoesAstray name)
    {found : ParamTrie} {path : List CString}
    (finds : (space.findTrieNode name).node = some (found, path)) :
    path = namePath name ∧ ∃ indexes, space.root.lookup compareTrieNode path = some indexes := by
  obtain ⟨short, some_, proper⟩ := of_checkParamName checks
  obtain ⟨label, tree, root⟩ := wellFormed.root
  by_cases named : name = rootKey
  · have search : space.findTrieNode_ name = ⟨some (space.root, [rootKey]), space.rootLabel⟩ := by
      rw [findTrieNode_, if_neg some_, if_pos (rootKey_compare.mpr named)]
    have data : space.root.data? = some ⟨label, 0⟩ := by
      rw [root]
      rfl
    rw [findTrieNode, search] at finds
    dsimp only at finds
    rw [data] at finds
    obtain ⟨-, rfl⟩ := Prod.ext_iff.mp (some.inj finds)
    refine ⟨(if_pos named).symm, ⟨label, 0⟩, ?_⟩
    rw [root]
    rfl
  have search : space.findTrieNode_ name =
      findLoop space.root [rootKey] space.rootLabel (subKeys name) := by
    rw [findTrieNode_, if_neg some_, if_neg (named ∘ rootKey_compare.mp)]
  have below : namePath name = rootKey :: subKeys name := if_neg named
  have trail : space.trail name = findTrail space.root [rootKey] (subKeys name) := if_neg named
  rw [findTrieNode, search] at finds
  cases ends : findLoop space.root [rootKey] space.rootLabel (subKeys name) with
  | mk node last =>
    rw [ends] at finds
    cases node with
    | none => cases finds
    | some reached =>
      obtain ⟨found', path'⟩ := reached
      obtain ⟨length, indexes, data, final⟩ := findLoop_last (subKeys_ne_nil name) ends
      dsimp only at finds
      rw [data] at finds
      dsimp only at finds
      split at finds
      · cases finds
      rename_i owned
      obtain ⟨rfl, rfl⟩ := Prod.ext_iff.mp (some.inj finds)
      have holds := wellFormed.trail_lookup _ (trail ▸ mem_of_getLast? final)
      rw [below]
      cases leads : space.nodeAt (subKeys name) with
      | some indexes' =>
        rw [nodeAt, wellFormed.lookup_root _ (subKeys_ne_nil name)] at leads
        obtain ⟨node, ends', -⟩ := @findLoop_of_lookup space.root [rootKey] (subKeys name)
          space.rootLabel indexes' proper (subKeys_ne_nil name) leads
        rw [ends] at ends'
        exact ⟨(Prod.ext_iff.mp (some.inj ends')).2, indexes, holds⟩
      | none =>
        have data' : indexes.dataIndex ≠ 0 := by
          intro zero
          refine straight ⟨named, leads, trail ▸ length, ?_⟩
          rw [trail, final]
          exact decide_eq_true zero
        obtain ⟨entry, entryAt, leadsTo, accepted, -⟩ := wellFormed.entries _ _ holds data'
        have sorted := wellFormed.sorted
        rw [root] at ends
        obtain ⟨rest, indexes', same, -, known, less⟩ := @findLoop_ends space.root rootKey
          ⟨label, 0⟩ .leaf .leaf tree found' [] path' (subKeys name) _ last
          (fun path indexes => space.root.lookup compareTrieNode path = some indexes) sorted
          (root ▸ .refl _) (fun _ _ known => known) ends
        subst same
        rcases less with same | less
        · rw [same] at holds
          cases holds.symm.trans leads
        have first := pathLength_subKeys accepted.last
        have second := pathLength_subKeys_le name
        have shortKey := accepted.length_lt
        have keyLength : entry.keyLength = entry.key.length := Nat.mod_eq_of_lt (by omega)
        rw [show path' = _ from leadsTo] at less
        simp only [pathLength, map_cons, sum_cons] at less first second
        refine absurd ⟨data', ?_⟩ owned
        simp [entryAt, keyLength]
        omega

theorem WellFormed.nodeToLabel (wellFormed : space.WellFormed)
    (checks : checkParamName name true = .success) (straight : ¬space.GoesAstray name) :
    (space.nodeToLabel name).1.WellFormed ∧ Extends space (space.nodeToLabel name).1 ∧
      ∀ path, (space.nodeToLabel name).2 = some path → path = namePath name := by
  rw [WorkSpace.nodeToLabel]
  split
  · rename_i found path finds
    refine ⟨wellFormed, .refl space, fun other same => ?_⟩
    rw [← some.inj same]
    exact (wellFormed.findTrieNode_path checks straight finds).1
  · rename_i missing
    have below : name ≠ rootKey := by
      rintro rfl
      obtain ⟨label, child, root⟩ := wellFormed.root
      have search : space.findTrieNode_ rootKey =
          ⟨some (space.root, [rootKey]), space.rootLabel⟩ := rfl
      rw [findTrieNode, search] at missing
      simp [root, SearchTrie.data?] at missing
    obtain ⟨formed, extends_⟩ := wellFormed.addTrieNode name
    split <;> rename_i added adds <;> rw [adds] at formed extends_
    · refine ⟨formed, extends_, fun other same => ?_⟩
      rw [← some.inj same, namePath, if_neg below]
    · exact ⟨formed, extends_, fun path none => absurd none (some_ne_none _).symm⟩

/-- What adding a label to a name does. -/
structure Labels (space : WorkSpace) (name : CString) (label : ParamSecurityNode)
    (result : WorkSpace × ParamCode) : Prop where
  wellFormed : result.1.WellFormed
  currOffset : space.currOffset ≤ result.1.currOffset
  kept : ∀ index, index < space.currOffset → result.1.labelAt index = space.labelAt index
  bounded : (∀ offset label, space.labels offset = some label → offset < space.currOffset) →
    ∀ offset label, result.1.labels offset = some label → offset < result.1.currOffset
  others : ∀ path, path ≠ namePath name → result.1.labelIndexAt path = space.labelIndexAt path
  again : space.labelIndexAt (namePath name) ≠ 0 →
    result.1.labelIndexAt (namePath name) = space.labelIndexAt (namePath name)
  failed : result.2 ≠ .success → ∀ path, result.1.labelIndexAt path = space.labelIndexAt path
  labelled : result.2 = .success → space.labelIndexAt (namePath name) = 0 →
    result.1.labelIndexAt (namePath name) ≠ 0 ∧
      result.1.labelAt (result.1.labelIndexAt (namePath name)) =
        some { label with type := label.type &&& paramTypeMask }

theorem Labels.unchanged {label : ParamSecurityNode} {code : ParamCode}
    (wellFormed : next.WellFormed) (same : SameLabels space next)
    (done : code = .success → space.labelIndexAt (namePath name) ≠ 0) :
    Labels space name label (next, code) := by
  refine ⟨wellFormed, same.currOffset, fun index _ => same.labelAt index,
    fun bounded offset label holds => ?_, fun path _ => same.index path, fun _ => same.index _,
    fun _ => same.index, fun succeeds zero => absurd zero (done succeeds)⟩
  exact Nat.lt_of_lt_of_le (bounded offset label (same.labels ▸ holds)) same.currOffset

theorem WellFormed.addLabel (wellFormed : space.WellFormed) (label : ParamSecurityNode)
    (straight : checkParamName name true = .success → ¬space.GoesAstray name) :
    Labels space name label (space.addSecurityLabel name label) := by
  rw [WorkSpace.addSecurityLabel]
  split
  case h_2 =>
    rename_i fails
    exact .unchanged wellFormed (.refl space) fun success => absurd success fails
  rename_i checks
  obtain ⟨formed, extends_, leads⟩ := wellFormed.nodeToLabel checks (straight checks)
  have same := extends_.sameLabels
  split <;> rename_i located <;> rw [located] at formed extends_ leads same
  · exact .unchanged formed same fun success => ParamCode.noConfusion success
  rename_i found path
  obtain rfl := leads path rfl
  dsimp only at formed same
  split
  · exact .unchanged formed same fun success => ParamCode.noConfusion success
  rename_i indexes holds
  have index : found.labelIndexAt (namePath name) = indexes.labelIndex := by
    rw [labelIndexAt, holds]
    rfl
  have before : space.labelIndexAt (namePath name) = indexes.labelIndex :=
    (same.index _).symm.trans index
  split
  case isFalse =>
    rename_i marked
    exact .unchanged formed same fun _ => before ▸ marked
  rename_i unmarked
  split
  · exact .unchanged formed same fun success => ParamCode.noConfusion success
  rename_i withLabel offset allocated
  rw [addParamSecurityNode, ite_none_right_eq_some] at allocated
  obtain ⟨room, allocated⟩ := allocated
  obtain ⟨rfl, rfl⟩ := Prod.ext_iff.mp (some.inj allocated)
  have grown : WellFormed { found with
      labels := Function.update found.labels found.currOffset
        (some { label with type := label.type &&& paramTypeMask })
      currOffset := found.currOffset + sizeofParamSecurityNode } :=
    ⟨formed.root, formed.sorted, formed.entries,
      fun place entry holds => Nat.lt_add_right _ (formed.bounded place entry holds),
      Nat.add_pos_left formed.positive _, Nat.le_of_lt room⟩
  obtain ⟨saved, -⟩ := @saveIndex _ grown
    (fun indexes => { indexes with labelIndex := found.currOffset }) (fun _ => rfl) (namePath name)
  have indexAt := fun path => labelIndexAt_saveIndex { found with
      labels := Function.update found.labels found.currOffset
        (some { label with type := label.type &&& paramTypeMask })
      currOffset := found.currOffset + sizeofParamSecurityNode }
    (fun indexes => { indexes with labelIndex := found.currOffset }) (namePath name) path
  have newIndex := (indexAt (namePath name)).trans (if_pos rfl)
  rw [holds] at newIndex
  refine ⟨saved, Nat.le_trans same.currOffset (Nat.le_add_right _ _), fun index before => ?_,
    fun bounded place one holds => ?_, fun path different => ?_,
    fun marked => absurd (before.trans unmarked) marked, absurd rfl, fun _ _ => ⟨?_, ?_⟩⟩
  · refine Eq.trans ?_ (same.labelAt index)
    have apart : index ≠ found.currOffset :=
      Nat.ne_of_lt (Nat.lt_of_lt_of_le before same.currOffset)
    rw [labelAt, labelAt]
    show (if index = 0 ∨ index > found.dataSize then none
      else Function.update found.labels found.currOffset _ index) = _
    rw [Function.update_of_ne apart]
  · by_cases here : place = found.currOffset
    · rw [here]
      exact Nat.lt_add_of_pos_right (by decide)
    · have old := bounded place one (same.labels ▸ (Function.update_of_ne here ..).symm.trans holds)
      exact Nat.lt_of_lt_of_le old (Nat.le_trans same.currOffset (Nat.le_add_right _ _))
  · exact (indexAt path).trans ((if_neg different).trans (same.index path))
  · rw [newIndex]
    exact Nat.ne_of_gt formed.positive
  · rw [newIndex]
    have positive := formed.positive
    show (if found.currOffset = 0 ∨ found.currOffset > found.dataSize then none
      else Function.update found.labels found.currOffset _ found.currOffset) = _
    rw [if_neg (by omega), Function.update_self]

/-! ### Permissions -/

/-- The user and the group of a caller. -/
structure UserCred where
  uid : Nat
  gid : Nat
  deriving DecidableEq

/-- `DAC_READ | DAC_WRITE | DAC_WATCH`. -/
def dacModes : BitVec 32 := 0x0100 ||| 0x0080 ||| 0x0040

def dacGroupStart : Nat := 3

def dacOtherStart : Nat := 6

def groupFormat : CString := "const.group".toList

/-- An identifier as `%d` prints it. -/
def printId (id : Nat) : CString :=
  (toString (BitVec.ofNat 32 id).toInt).toList

def checkUserInGroup (space : WorkSpace) (groupId uid : Nat) : Bool :=
  let buffer := groupFormat ++ '.' :: printId groupId ++ '.' :: printId uid
  match space.labelAt (space.findTrieNode buffer).matchLabel with
  | none => false
  | some node => node.gid = groupId && node.uid = uid

/-- Whether a label permits a mode. A build for another library than musl goes on in any case. -/
def permits (space : WorkSpace) (musl : Bool) (cred : UserCred) (mode : BitVec 32)
    (node : ParamSecurityNode) : Bool :=
  let localMode :=
    if cred.uid = node.uid then mode &&& dacModes
    else if cred.gid = node.gid then (mode &&& dacModes) >>> dacGroupStart
    else if space.checkUserInGroup node.gid cred.uid then (mode &&& dacModes) >>> dacGroupStart
    else (mode &&& dacModes) >>> dacOtherStart
  node.mode.setWidth 32 &&& localMode ≠ 0 || !musl

/-- Whether `DacCheckParamPermission` returns `DAC_RESULT_PERMISSION`. -/
def dacCheckParamPermission (space : WorkSpace) (musl : Bool) (cred : UserCred) (name : CString)
    (mode : BitVec 32) : Bool :=
  if cred.uid = 0 then true
  else
    match space.labelAt (space.findTrieNode name).matchLabel with
    | none => false
    | some node => space.permits musl cred mode node

end WorkSpace

/-! ### Runs -/

/-- A workspace with the paths that were given a label, the last one first. -/
structure LabelStore where
  space : WorkSpace
  labelled : List (List CString × ParamSecurityNode)

namespace LabelStore

/-- A call. -/
def step (state : LabelStore) : Action → Option LabelStore
  | .addLabel name label =>
      match state.space.addSecurityLabel name label with
      | (space, .success) => some ⟨space, (namePath name, label) :: state.labelled⟩
      | (space, _) => some ⟨space, state.labelled⟩
  | .write name value onlyAdd =>
      if Accepted name then
        some { state with space := (state.space.writeParam name value onlyAdd).1 }
      else none

/-- An initialised workspace, in which the root has its label. -/
def Initialised (state : LabelStore) : Prop :=
  ∃ dataSize, initParamWorkSpace dataSize = some state.space ∧
    state.labelled = [([rootKey], defaultLabel)]

/-- The labels are those that were added, and searches for the names that are looked up report that
of the longest labelled beginning of the name. -/
structure Resolves (state : LabelStore) (lookedUp : WorkSpace → CString → Prop) : Prop where
  labelled : ∀ path, state.space.labelIndexAt path ≠ 0 ↔ path ∈ state.labelled.map Prod.fst
  contents : ∀ path, state.space.labelAt (state.space.labelIndexAt path) =
    (state.labelled.reverse.lookup path).map fun label =>
      { label with type := label.type &&& paramTypeMask }
  nearest : ∀ name, Accepted name → lookedUp state.space name →
    ∃ nearest, Nearest (state.labelled.map Prod.fst) (namePath name) nearest ∧
      (state.space.findTrieNode name).matchLabel = state.space.labelIndexAt nearest ∧
        ∀ musl cred mode, cred.uid ≠ 0 →
          state.space.dacCheckParamPermission musl cred name mode =
            (state.space.labelAt (state.space.labelIndexAt nearest)).any
              (state.space.permits musl cred mode)

/-- The search for a name that gets a label does not go astray. -/
def AddsStraight (state : LabelStore) : Action → Prop
  | .addLabel name _ => checkParamName name true = .success → ¬state.space.GoesAstray name
  | .write _ _ _ => True

instance (state : LabelStore) : (action : Action) → Decidable (AddsStraight state action)
  | .addLabel name _ => inferInstanceAs
      (Decidable (checkParamName name true = .success → ¬state.space.GoesAstray name))
  | .write _ _ _ => inferInstanceAs (Decidable True)

/-- What every run keeps when the searches for names that get labels do not go astray. -/
structure Invariant (state : LabelStore) : Prop where
  wellFormed : state.space.WellFormed
  bounded : ∀ offset label, state.space.labels offset = some label →
    offset < state.space.currOffset
  rooted : [rootKey] ∈ state.labelled.map Prod.fst
  labelled : ∀ path, state.space.labelIndexAt path ≠ 0 ↔ path ∈ state.labelled.map Prod.fst
  contents : ∀ path, state.space.labelAt (state.space.labelIndexAt path) =
    (state.labelled.reverse.lookup path).map fun label =>
      { label with type := label.type &&& paramTypeMask }

theorem Invariant.resolves {state : LabelStore} (invariant : Invariant state) :
    Resolves state WorkSpace.StaysOnPath := by
  refine ⟨invariant.labelled, invariant.contents, fun name accepted stays => ?_⟩
  obtain ⟨nearest, isNearest, reports⟩ := invariant.wellFormed.matchLabel_nearest
    accepted.ne_nil accepted.parts stays ((invariant.labelled _).mpr invariant.rooted)
    invariant.labelled
  refine ⟨nearest, isNearest, reports, fun musl cred mode user => ?_⟩
  rw [WorkSpace.dacCheckParamPermission, if_neg user, reports]
  cases state.space.labelAt (state.space.labelIndexAt nearest) <;> rfl

theorem Invariant.index_lt {state : LabelStore} (invariant : Invariant state) (path : List CString) :
    state.space.labelIndexAt path < state.space.currOffset := by
  by_cases zero : state.space.labelIndexAt path = 0
  · rw [zero]
    exact invariant.wellFormed.positive
  have member := (invariant.labelled path).mp zero
  have contents := invariant.contents path
  cases found : state.labelled.reverse.lookup path with
  | none =>
    obtain ⟨entry, inside, rfl⟩ := mem_map.mp member
    have absent := lookup_eq_none_iff.mp found entry (mem_reverse.mpr inside)
    simp at absent
  | some label =>
    rw [found, WorkSpace.labelAt] at contents
    split at contents
    · exact absurd contents nofun
    · exact invariant.bounded _ _ contents

theorem Invariant.same {state : LabelStore} (invariant : Invariant state) {space : WorkSpace}
    (wellFormed : space.WellFormed) (same : WorkSpace.SameLabels state.space space) :
    Invariant { state with space := space } := by
  refine ⟨wellFormed, fun offset label holds => ?_, invariant.rooted, fun path => ?_,
    fun path => ?_⟩
  · exact Nat.lt_of_lt_of_le (invariant.bounded offset label (same.labels ▸ holds)) same.currOffset
  · rw [same.index]
    exact invariant.labelled path
  · rw [same.index, same.labelAt]
    exact invariant.contents path

theorem Invariant.addLabel {state : LabelStore} (invariant : Invariant state) {name : CString}
    {label : ParamSecurityNode} {result : WorkSpace × ParamCode}
    (labels : WorkSpace.Labels state.space name label result) :
    Invariant ⟨result.1, if result.2 = .success then (namePath name, label) :: state.labelled
      else state.labelled⟩ := by
  have old : ∀ path, result.1.labelIndexAt path = state.space.labelIndexAt path →
      result.1.labelAt (result.1.labelIndexAt path) =
        state.space.labelAt (state.space.labelIndexAt path) := by
    intro path same
    rw [same]
    exact labels.kept _ (invariant.index_lt path)
  by_cases succeeds : result.2 = .success
  · rw [if_pos succeeds]
    refine ⟨labels.wellFormed, labels.bounded invariant.bounded,
      mem_cons_of_mem _ invariant.rooted, fun path => ?_, fun path => ?_⟩
    · show result.1.labelIndexAt path ≠ 0 ↔ path ∈ namePath name :: _
      rw [mem_cons]
      by_cases same : path = namePath name
      · refine iff_of_true ?_ (.inl same)
        rw [same]
        by_cases marked : state.space.labelIndexAt (namePath name) = 0
        · exact (labels.labelled succeeds marked).1
        · rw [labels.again marked]
          exact marked
      · rw [labels.others path same, invariant.labelled path]
        exact (or_iff_right same).symm
    · rw [reverse_cons, List.lookup_append, List.lookup_cons]
      by_cases same : path = namePath name
      · subst same
        rw [beq_self_eq_true]
        by_cases marked : state.space.labelIndexAt (namePath name) = 0
        · have contents := invariant.contents (namePath name)
          rw [marked] at contents
          rw [map_eq_none_iff.mp contents.symm]
          exact (labels.labelled succeeds marked).2
        · have contents := (old _ (labels.again marked)).trans (invariant.contents _)
          have member := (invariant.labelled _).mp marked
          rw [contents]
          cases found : state.labelled.reverse.lookup (namePath name) with
          | none =>
            obtain ⟨entry, inside, path⟩ := mem_map.mp member
            have absent := lookup_eq_none_iff.mp found entry (mem_reverse.mpr inside)
            simp [path] at absent
          | some label => rfl
      · rw [beq_eq_false_iff_ne.mpr same, lookup_nil, or_none,
          old path (labels.others path same)]
        exact invariant.contents path
  · rw [if_neg succeeds]
    refine ⟨labels.wellFormed, labels.bounded invariant.bounded, invariant.rooted,
      fun path => ?_, fun path => ?_⟩
    · rw [labels.failed succeeds]
      exact invariant.labelled path
    · exact (old path (labels.failed succeeds path)).trans (invariant.contents path)

theorem Invariant.step {state next : LabelStore} {action : Action} (invariant : Invariant state)
    (straight : AddsStraight state action) (steps : step state action = some next) :
    Invariant next := by
  cases action with
  | write name value onlyAdd =>
    rw [LabelStore.step, ite_none_right_eq_some] at steps
    obtain ⟨accepted, steps⟩ := steps
    obtain rfl := some.inj steps
    exact invariant.same (invariant.wellFormed.writeParam accepted value onlyAdd).wellFormed
      (WorkSpace.writeParam_sameLabels invariant.wellFormed name value onlyAdd)
  | addLabel name label =>
    have added := invariant.addLabel (invariant.wellFormed.addLabel label straight)
    rw [LabelStore.step] at steps
    split at steps
    · rename_i space adds
      obtain rfl := some.inj steps
      rw [adds] at added
      exact added
    · rename_i space code fails adds
      obtain rfl := some.inj steps
      rw [adds, if_neg fun success => fails success] at added
      exact added

theorem Initialised.invariant {state : LabelStore} (initialised : Initialised state) :
    Invariant state := by
  obtain ⟨dataSize, made, rooted⟩ := initialised
  rw [initParamWorkSpace, bind_eq_some_iff] at made
  obtain ⟨bare, allocated, labelled⟩ := made
  obtain ⟨wellFormed, zero, -, empty⟩ := WorkSpace.wellFormed_initWorkSpace allocated
  have unlabelled : ∀ path, bare.labelIndexAt path = 0 := by
    intro path
    rw [WorkSpace.labelIndexAt]
    cases holds : bare.root.lookup compareTrieNode path with
    | none => rfl
    | some indexes => exact congrArg Indexes.labelIndex (zero path indexes holds)
  have labels := @WorkSpace.WellFormed.addLabel bare rootKey wellFormed defaultLabel
    fun _ astray => astray.1 rfl
  have root : namePath rootKey = [rootKey] := rfl
  split at labelled
  case h_2 => cases labelled
  rename_i next result
  rw [show bare.addSecurityLabel rootKey defaultLabel = _ from result] at labels
  obtain ⟨index, contents⟩ := labels.labelled rfl (unlabelled _)
  have others := fun path different =>
    (labels.others path (root.symm ▸ different)).trans (unlabelled path)
  obtain rfl := some.inj labelled
  refine ⟨labels.wellFormed, labels.bounded fun offset label holds => ?_, ?_, fun path => ?_,
    fun path => ?_⟩
  · cases (empty offset).symm.trans holds
  · rw [rooted]
    exact mem_singleton_self _
  · rw [rooted, map_singleton, mem_singleton]
    by_cases same : path = [rootKey]
    · exact iff_of_true (same ▸ index) same
    · exact iff_of_false (fun marked => marked (others path same)) same
  · rw [rooted, reverse_singleton, List.lookup_cons]
    by_cases same : path = [rootKey]
    · subst same
      exact contents
    · rw [beq_eq_false_iff_ne.mpr same,
        show state.space.labelIndexAt path = 0 from others path same]
      rfl

/-- As long as no search for a name that gets a label goes astray, exactly those names are labelled,
and a search that comes to no labelled node off the path of its name reports the label of the
longest labelled beginning of the name. -/
theorem labels_resolve {state : LabelStore}
    (reached : Reachable step AddsStraight Initialised state) :
    Resolves state WorkSpace.StaysOnPath :=
  (reached.invariant (fun _ => Initialised.invariant)
    fun _ _ _ _ holds straight steps => holds.step straight steps).resolves

/-- Calls after an area of one KiB has been made a workspace. -/
def runInKiB (test : LabelStore → Action → Bool) (actions : List Action) : Option LabelStore :=
  (initParamWorkSpace 1024).bind fun space =>
    execute step test ⟨space, [([rootKey], defaultLabel)]⟩ actions

theorem runInKiB_reached {condition : LabelStore → Action → Prop}
    {test : LabelStore → Action → Bool}
    (sound : ∀ state action, test state action = true → condition state action)
    {actions : List Action} {last : LabelStore} (result : runInKiB test actions = some last) :
    Reachable step condition Initialised last := by
  obtain ⟨space, made, runs⟩ := bind_eq_some_iff.mp result
  exact .of_execute sound actions (.start ⟨1024, made, rfl⟩) runs

def sampleLabel : ParamSecurityNode :=
  ⟨1000, 1000, 0o750, paramTypeString⟩

theorem labels_resolve_sample : ∃ state,
    runInKiB (fun state action => decide (AddsStraight state action))
      [.addLabel "a.b.".toList sampleLabel, .addLabel "c".toList sampleLabel,
        .write "a.b.d".toList "1".toList false] = some state ∧
      Resolves state WorkSpace.StaysOnPath := by
  have runs : (runInKiB (fun state action => decide (AddsStraight state action))
      [.addLabel "a.b.".toList sampleLabel, .addLabel "c".toList sampleLabel,
        .write "a.b.d".toList "1".toList false]).isSome = true := by decide
  obtain ⟨state, result⟩ := Option.isSome_iff_exists.mp runs
  exact ⟨state, result, labels_resolve (runInKiB_reached (fun _ _ => of_decide_eq_true) result)⟩

/-- After `a` and `b` have been labelled, the search for `a.b` reports the label of `b`. -/
theorem labels_stray : ¬∀ state, Reachable step (fun _ _ => True) Initialised state →
    Resolves state fun _ _ => True := by
  intro all
  have runs : (runInKiB (fun _ _ => true) [.addLabel "a".toList sampleLabel,
      .addLabel "b".toList sampleLabel]).map (fun state =>
        (state.labelled.map Prod.fst).all fun path =>
          path.isPrefixOf (namePath "a.b".toList) → state.space.labelIndexAt path ≠
            (state.space.findTrieNode "a.b".toList).matchLabel) = some true := by
    decide
  obtain ⟨state, result, wrong⟩ := Option.map_eq_some_iff.mp runs
  obtain ⟨nearest, isNearest, reports, -⟩ := (all state
    (runInKiB_reached (fun _ _ _ => trivial) result)).nearest "a.b".toList (by decide) trivial
  exact of_decide_eq_true (List.all_eq_true.mp wrong nearest isNearest.member)
    (List.isPrefixOf_iff_prefix.mpr isNearest.begins) reports.symm

end LabelStore

end TowerSafe.Param
