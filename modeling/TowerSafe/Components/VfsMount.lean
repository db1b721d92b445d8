/-
This file embeds the search for a mount point of a build with mounts below mounts, and `umount` and
`umount2` on top of it. It says exactly when the search finds the mount point with the longest path
above a given one, and when an unmounted mount point is the one that was named.
-/

import Mathlib.Data.List.MinMax
import TowerSafe.Components.Vfs
import TowerSafe.Library.Words

namespace TowerSafe.VfsMount

open Vfs Library List Option

/-! ### The search -/

/-- The loops of `VfsMpFind` over slashes: a slash that another one follows is not passed over, and
behind one that is there is no other. -/
def skipSlash : CString → CString
  | '/' :: rest => if rest.head? = some '/' then '/' :: rest else rest
  | path => path

/-- The loop of `VfsMpFind` over the components of a mount point's path, for the score: `none` is
`goto next`. -/
def matchLoop : Nat → CString → CString → Nat → Option Nat
  | 0, _, _, _ => none
  | fuel + 1, mPath, iPath, score =>
      let mPath := skipSlash mPath
      let iPath := skipSlash iPath
      let component := mPath.takeWhile (· ≠ '/')
      if component = [] then some score
      else if component.isPrefixOf iPath = false then none
      else
        let iPath := iPath.drop component.length
        if iPath.head? ≠ none ∧ iPath.head? ≠ some '/' then none
        else
          let mPath := mPath.drop component.length
          if mPath = [] then some (score + component.length)
          else matchLoop fuel mPath iPath (score + component.length)

/-- What the search makes of a mount point: the best score so far, and whose it is. -/
def better (path : CString) (best : Nat × Option MountPoint) (mp : MountPoint) :
    Nat × Option MountPoint :=
  match matchLoop (mp.mPath.length + 1) mp.mPath path 0 with
  | none => best
  | some score => if score > best.1 then (score, some mp) else best

/-- `VfsMpFind` with `LOSCFG_FS_SUPPORT_MOUNT_TARGET_RECURSIVE`; `*pathInMp` is the path whenever a
mount point is found. -/
def vfsMpFindRecursive (mountPoints : List MountPoint) (path : CString) : Option MountPoint :=
  (mountPoints.foldl (better path) (0, none)).2

/-- `VfsMpFind`, in either build. -/
def vfsMpFind (recursive : Bool) (st : State) (path : CString) : Option MountPoint :=
  if recursive then vfsMpFindRecursive st.mountPoints path else st.vfsMpFind path

/-- `umount`, or `umount2` when `second` is set, in either build. -/
def umount (recursive second : Bool) (st : State) (target : Option CString) (result : Int) :
    State × Int :=
  match vfsMountPathCheck target with
  | none => (st, losNok)
  | some target =>
      match vfsMpFind recursive st target with
      | none => (st, losNok)
      | some mp =>
          if mp.mRefs ≠ 0 then (st, losNok)
          else
            match st.mFsOf mp with
            | none => (st, losNok)
            | some mFs =>
                if !mFs.fsMops.unmounts second then (st, losNok)
                else if result ≠ 0 then (st, losNok)
                else ((st.mpDeleteFromList mp).changeFsRefs mp.mFs (· - 1), losOk)

/-! ### Paths -/

/-- The components of a path, whatever the number of slashes between them. -/
def components (path : CString) : List CString :=
  (path.splitOn '/').filter (· ≠ [])

/-- The components of a path that the search looks at: those before the first two slashes in a
row. -/
def readComponents (path : CString) : List CString :=
  ((skipSlash path).splitOn '/').takeWhile (· ≠ [])

def Above (path : CString) (mp : MountPoint) : Prop :=
  components mp.mPath <+: components path

/-- The search takes the mount point for one above the path. -/
def Taken (path : CString) (mp : MountPoint) : Prop :=
  readComponents mp.mPath ≠ [] ∧ readComponents mp.mPath <+: readComponents path

instance (path : CString) (mp : MountPoint) : Decidable (Above path mp) := by
  unfold Above
  infer_instance

instance (path : CString) (mp : MountPoint) : Decidable (Taken path mp) := by
  unfold Taken
  infer_instance

/-- A mount point is the right one for a path: it lies above it, and no other one above it has more
components; `none` is right when there is none above it. -/
def Right (mountPoints : List MountPoint) (path : CString) : Option MountPoint → Prop
  | none => ∀ mp ∈ mountPoints, ¬ Above path mp
  | some mp => mp ∈ mountPoints ∧ Above path mp ∧ ∀ other ∈ mountPoints, Above path other →
      (components other.mPath).length ≤ (components mp.mPath).length

/-- The first of the mount points with the most components read, of those that are taken. -/
def mostRead (mountPoints : List MountPoint) (path : CString) : Option MountPoint :=
  (mountPoints.filter fun mp => Taken path mp).argmax fun mp => (readComponents mp.mPath).length

/-- The search is right about a path: no mount point lies above it and none is taken, or one of
those above it with the most components is taken, none that is taken has more components read, and
none that stands before it has as many. -/
def ReadRight (mountPoints : List MountPoint) (path : CString) : Prop :=
  (∀ mp ∈ mountPoints, ¬ Above path mp ∧ ¬ Taken path mp) ∨
    ∃ before mp after, mountPoints = before ++ mp :: after ∧
      Right mountPoints path (some mp) ∧ Taken path mp ∧
      (∀ other ∈ before, Taken path other →
        (readComponents other.mPath).length < (readComponents mp.mPath).length) ∧
      ∀ other ∈ after, Taken path other →
        (readComponents other.mPath).length ≤ (readComponents mp.mPath).length

/-- The mount point whose path is the target is unmounted, and no other one. -/
def Removes (mountPoints after : List MountPoint) (target : CString) : Prop :=
  ∃ front mp back, mountPoints = front ++ mp :: back ∧ mp.mPath = target ∧ after = front ++ back

/-- The search takes the mount point for the target itself: all components that are read of the two
are the same, and there is one, or, in a build without mounts below mounts, the first one is. -/
def TakenForTarget (recursive : Bool) (target : CString) (mp : MountPoint) : Prop :=
  if recursive then
    readComponents target ≠ [] ∧ readComponents mp.mPath = readComponents target
  else sameComponent (skipSlashes mp.mPath) (skipSlashes target) = true

/-- The first mount point that is taken for the target has its path. -/
def NamedFirst (recursive : Bool) (mountPoints : List MountPoint) (target : CString) : Prop :=
  ∃ before mp after, mountPoints = before ++ mp :: after ∧ mp.mPath = target ∧
    TakenForTarget recursive target mp ∧ ∀ other ∈ before, ¬ TakenForTarget recursive target other

/-! ### What the search reads -/

section Reading

variable {path mPath iPath rest : CString}

theorem readComponents_slash (rest : CString) :
    readComponents ('/' :: rest) = (rest.splitOn '/').takeWhile (· ≠ []) := by
  have isSkip : skipSlash ('/' :: rest) = if rest.head? = some '/' then '/' :: rest else rest := rfl
  rw [readComponents, isSkip]
  split
  · rename_i again
    cases rest with
    | nil => cases again
    | cons first others =>
      obtain rfl := some.inj again
      rfl
  · rfl

theorem readComponents_eq (path : CString) : readComponents path =
      if (skipSlash path).takeWhile (· ≠ '/') = [] then []
      else (skipSlash path).takeWhile (· ≠ '/') ::
        readComponents ((skipSlash path).drop ((skipSlash path).takeWhile (· ≠ '/')).length) := by
  generalize isPath : skipSlash path = text
  have halves := takeWhile_append_dropWhile (p := (· ≠ '/')) (l := text)
  have isDrop : text.drop (text.takeWhile (· ≠ '/')).length = text.dropWhile (· ≠ '/') :=
    (congrArg (List.drop _) halves).symm.trans drop_left
  have noSlash : '/' ∉ text.takeWhile (· ≠ '/') := fun member =>
    absurd (mem_takeWhile_imp member) (by decide)
  rw [readComponents, isPath, isDrop]
  generalize text.takeWhile (· ≠ '/') = first at halves noSlash
  cases isRest : text.dropWhile (· ≠ '/') with
  | nil =>
    rw [isRest, append_nil] at halves
    rw [← halves, splitOn_eq_singleton noSlash, takeWhile_cons]
    by_cases nothing : first = []
    · rw [if_neg (by simp [nothing]), if_pos nothing]
    · rw [if_pos (by simp [nothing]), if_neg nothing]
      rfl
  | cons slash others =>
    have head := head_dropWhile_not (· ≠ '/') (l := text)
      (by rw [isRest]; exact cons_ne_nil _ _)
    simp only [isRest, head_cons] at head
    obtain rfl := Decidable.not_not.mp (of_decide_eq_false head)
    rw [isRest] at halves
    rw [← halves, splitOn_append_cons_self, splitOn_eq_singleton noSlash,
      singleton_append, takeWhile_cons, readComponents_slash]
    by_cases nothing : first = []
    · rw [if_neg (by simp [nothing]), if_pos nothing]
    · rw [if_pos (by simp [nothing]), if_neg nothing]

theorem ne_nil_of_mem_readComponents {component : CString}
    (member : component ∈ readComponents path) : component ≠ [] := by
  have holds := mem_takeWhile_imp member
  exact of_decide_eq_true holds

def characters (components : List CString) : Nat :=
  (components.map List.length).sum

theorem skipSlash_length_le : (skipSlash path).length ≤ path.length := by
  unfold skipSlash
  split
  · split
    · exact Nat.le_refl _
    · exact Nat.le_succ _
  · exact Nat.le_refl _

/-- A text starts with a component where it starts with its characters and ends or has a slash
behind them. -/
theorem takeWhile_eq_iff {component text : CString} (whole : '/' ∉ component) :
    text.takeWhile (· ≠ '/') = component ↔ component.isPrefixOf text = true ∧
      ¬ ((text.drop component.length).head? ≠ none ∧
        (text.drop component.length).head? ≠ some '/') := by
  have all : ∀ char ∈ component, decide (char ≠ '/') = true := fun char member =>
    decide_eq_true fun same => whole (same ▸ member)
  rw [List.isPrefixOf_iff_prefix]
  constructor
  · rintro rfl
    have halves := takeWhile_append_dropWhile (p := (· ≠ '/')) (l := text)
    have isDrop : text.drop (text.takeWhile (· ≠ '/')).length = text.dropWhile (· ≠ '/') :=
      (congrArg (List.drop _) halves).symm.trans drop_left
    refine ⟨⟨_, halves⟩, fun goesOn => ?_⟩
    rw [isDrop] at goesOn
    cases isRest : text.dropWhile (· ≠ '/') with
    | nil => exact goesOn.1 (by rw [isRest]; rfl)
    | cons slash others =>
      have head := head_dropWhile_not (· ≠ '/') (l := text)
        (by rw [isRest]; exact cons_ne_nil _ _)
      simp only [isRest, head_cons] at head
      obtain rfl := Decidable.not_not.mp (of_decide_eq_false head)
      exact goesOn.2 (by rw [isRest]; rfl)
  · rintro ⟨⟨rest, rfl⟩, ends⟩
    rw [drop_left] at ends
    rw [takeWhile_append_of_pos all]
    cases rest with
    | nil => exact append_nil component
    | cons char others =>
      obtain rfl : char = '/' := by
        by_contra differs
        exact ends ⟨nofun, fun same => differs (some.inj same)⟩
      rw [takeWhile_cons_of_neg (by decide), append_nil]

theorem matchLoop_eq {fuel : Nat} : ∀ {mPath iPath : CString} {score : Nat}, mPath.length < fuel →
    matchLoop fuel mPath iPath score = if readComponents mPath <+: readComponents iPath then
        some (score + characters (readComponents mPath)) else none := by
  induction fuel with
  | zero => exact fun enough => absurd enough (Nat.not_lt_zero _)
  | succ fuel hypothesis =>
    intro mPath iPath score enough
    have shorter := @skipSlash_length_le mPath
    rw [readComponents_eq mPath, matchLoop]
    generalize skipSlash mPath = text at shorter
    have noSlash : '/' ∉ text.takeWhile (· ≠ '/') := fun member =>
      absurd (mem_takeWhile_imp member) (by decide)
    generalize text.takeWhile (· ≠ '/') = component at noSlash
    by_cases nothing : component = []
    · rw [if_pos nothing, if_pos nothing]
      rfl
    rw [if_neg nothing, if_neg nothing, readComponents_eq iPath]
    generalize skipSlash iPath = target
    have isFirst := @takeWhile_eq_iff component target noSlash
    by_cases same : target.takeWhile (· ≠ '/') = component
    · obtain ⟨begins, ends⟩ := isFirst.mp same
      rw [if_neg (by rw [begins]; exact nofun), if_neg ends, same, if_neg nothing]
      simp only [cons_prefix_cons, true_and]
      have positive := length_pos_iff.mpr nothing
      by_cases last : text.drop component.length = []
      · rw [last]
        rfl
      have remaining := length_pos_iff.mpr last
      rw [length_drop] at remaining
      rw [if_neg last, hypothesis (by rw [length_drop]; omega)]
      rw [characters, characters, map_cons, sum_cons, Nat.add_assoc]
    · have notBoth := mt isFirst.mpr same
      rw [if_neg (c := component :: _ <+: _)]
      · cases begins : component.isPrefixOf target with
        | false => rfl
        | true =>
          rw [if_neg nofun, if_pos]
          by_contra ends
          exact notBoth ⟨begins, ends⟩
      · split
        · exact fun isPrefix => absurd (eq_nil_of_prefix_nil isPrefix) (cons_ne_nil _ _)
        · exact fun isPrefix => same (cons_prefix_cons.mp isPrefix).1.symm

end Reading

/-! ### What the search finds -/

section Finding

variable {path : CString} {mp other : MountPoint} {mountPoints : List MountPoint}

theorem characters_append (front back : List CString) :
    characters (front ++ back) = characters front + characters back := by
  unfold characters
  rw [map_append, sum_append]

theorem characters_pos {names : List CString} (some_ : names ≠ [])
    (proper : ∀ name ∈ names, name ≠ []) : 0 < characters names := by
  cases names with
  | nil => exact absurd rfl some_
  | cons name rest =>
    have positive := length_pos_iff.mpr (proper name (.head _))
    unfold characters
    rw [map_cons, sum_cons]
    omega

/-- Of the components that begin a path, more have more characters. -/
theorem characters_lt_iff {names others whole : List CString} (begins : names <+: whole)
    (otherBegins : others <+: whole) (proper : ∀ name ∈ whole, name ≠ []) :
    characters names < characters others ↔ names.length < others.length := by
  rcases Nat.le_total names.length others.length with shorter | longer
  · obtain ⟨rest, rfl⟩ := prefix_of_prefix_length_le begins otherBegins shorter
    rw [characters_append, length_append]
    cases rest with
    | nil => exact iff_of_false (Nat.lt_irrefl _) (Nat.lt_irrefl _)
    | cons name more =>
      have positive := @characters_pos (name :: more) (cons_ne_nil _ _) fun one member =>
        proper one (otherBegins.subset (mem_append_right _ member))
      rw [length_cons]
      exact iff_of_true (by omega) (by omega)
  · obtain ⟨rest, rfl⟩ := prefix_of_prefix_length_le otherBegins begins longer
    rw [characters_append]
    exact iff_of_false (by omega) (by omega)

theorem better_eq (path : CString) (best : Nat × Option MountPoint) (mp : MountPoint) :
    better path best mp = if Taken path mp ∧ best.1 < characters (readComponents mp.mPath) then
        (characters (readComponents mp.mPath), some mp) else best := by
  unfold better
  rw [matchLoop_eq (Nat.lt_succ_self _), Nat.zero_add]
  by_cases taken : Taken path mp
  · rw [if_pos taken.2]
    exact if_congr (and_iff_right taken).symm rfl rfl
  by_cases begins : readComponents mp.mPath <+: readComponents path
  · have nothing : readComponents mp.mPath = [] := by
      by_contra some_
      exact taken ⟨some_, begins⟩
    have low : ¬ characters (readComponents mp.mPath) > best.1 := by
      rw [nothing]
      exact Nat.not_lt_zero _
    rw [if_pos begins]
    exact (if_neg low).trans (if_neg fun both => taken both.1).symm
  · rw [if_neg begins]
    exact (if_neg fun both => taken both.1).symm

theorem foldl_better (mountPoints : List MountPoint) :
    mountPoints.foldl (better path) (0, none) =
      match mostRead mountPoints path with
      | none => (0, none)
      | some mp => (characters (readComponents mp.mPath), some mp) := by
  unfold mostRead
  induction mountPoints using List.reverseRecOn with
  | nil => rfl
  | append_singleton front mp hypothesis =>
    rw [foldl_append, foldl_cons, foldl_nil, hypothesis, better_eq,
      filter_append]
    by_cases taken : Taken path mp
    · have single : [mp].filter (fun mp => decide (Taken path mp)) = [mp] := by
        rw [filter_cons, if_pos (decide_eq_true taken), filter_nil]
      rw [single, argmax_concat]
      have positive := characters_pos taken.1 fun name => ne_nil_of_mem_readComponents
      cases isMost : (front.filter fun mp => decide (Taken path mp)).argmax
          fun mp => (readComponents mp.mPath).length with
      | none => exact if_pos ⟨taken, positive⟩
      | some most =>
        have member := argmax_mem isMost
        have mostTaken : Taken path most := of_decide_eq_true (mem_filter.mp member).2
        have more := characters_lt_iff mostTaken.2 taken.2
          fun name => ne_nil_of_mem_readComponents
        dsimp only
        by_cases longer : (readComponents most.mPath).length < (readComponents mp.mPath).length
        · rw [if_pos longer, if_pos ⟨taken, more.mpr longer⟩]
        · rw [if_neg longer, if_neg fun both => longer (more.mp both.2)]
    · have none_ : [mp].filter (fun mp => decide (Taken path mp)) = [] := by
        rw [filter_cons, if_neg fun holds => taken (of_decide_eq_true holds), filter_nil]
      rw [none_, append_nil, if_neg fun both => taken both.1]

theorem vfsMpFindRecursive_eq (mountPoints : List MountPoint) (path : CString) :
    vfsMpFindRecursive mountPoints path = mostRead mountPoints path := by
  unfold vfsMpFindRecursive
  rw [foldl_better]
  cases mostRead mountPoints path with
  | none => rfl
  | some mp => rfl

theorem mostRead_eq_none_iff :
    mostRead mountPoints path = none ↔ ∀ mp ∈ mountPoints, ¬ Taken path mp := by
  unfold mostRead
  rw [argmax_eq_none, filter_eq_nil_iff]
  exact forall₂_congr fun mp _ => not_congr decide_eq_true_iff

/-- What `argmax` picks is above what stands before it and not below what stands behind it. -/
theorem argmax_eq_some_iff_split {Entry : Type} (measure : Entry → Nat) {entry : Entry}
    {entries : List Entry} : entries.argmax measure = some entry ↔
      ∃ before after, entries = before ++ entry :: after ∧
        (∀ other ∈ before, measure other < measure entry) ∧
        ∀ other ∈ after, measure other ≤ measure entry := by
  induction entries with
  | nil =>
    refine iff_of_false nofun fun ⟨before, after, same, _⟩ => ?_
    exact append_ne_nil_of_right_ne_nil _ (cons_ne_nil _ _) same.symm
  | cons first rest hypothesis =>
    rw [argmax_cons]
    cases isMost : rest.argmax measure with
    | none =>
      obtain rfl := argmax_eq_none.mp isMost
      constructor
      · intro same
        obtain rfl := some.inj same
        exact ⟨[], [], rfl, nofun, nofun⟩
      · rintro ⟨before, after, same, -, -⟩
        cases before with
        | nil => exact congrArg some (List.cons.inj same).1
        | cons other others =>
          exact absurd (List.cons.inj same).2.symm
            (append_ne_nil_of_right_ne_nil _ (cons_ne_nil _ _))
    | some most =>
      dsimp only
      constructor
      · intro found
        split at found
        · rename_i less
          obtain rfl := some.inj found
          obtain ⟨before, after, rfl, lower, notHigher⟩ := hypothesis.mp isMost
          refine ⟨first :: before, after, rfl, fun other member => ?_, notHigher⟩
          rcases mem_cons.mp member with rfl | member
          · exact less
          · exact lower other member
        · rename_i notLess
          obtain rfl := some.inj found
          refine ⟨[], rest, rfl, nofun, fun other member => ?_⟩
          exact Nat.le_trans (le_of_mem_argmax member isMost) (Nat.not_lt.mp notLess)
      · rintro ⟨before, after, same, lower, notHigher⟩
        cases before with
        | nil =>
          obtain ⟨rfl, rfl⟩ := List.cons.inj same
          exact if_neg (Nat.not_lt.mpr (notHigher most (argmax_mem isMost)))
        | cons other others =>
          obtain ⟨rfl, rfl⟩ := List.cons.inj same
          have isEntry := hypothesis.mpr ⟨others, after, rfl,
            fun one member => lower one (.tail _ member), notHigher⟩
          obtain rfl := some.inj (isMost.symm.trans isEntry)
          exact if_pos (lower first (.head _))

/-- Which mount point is the first one with the most components read. -/
theorem mostRead_eq_some_iff : mostRead mountPoints path = some mp ↔
      ∃ before after, mountPoints = before ++ mp :: after ∧ Taken path mp ∧
        (∀ other ∈ before, Taken path other →
          (readComponents other.mPath).length < (readComponents mp.mPath).length) ∧
        ∀ other ∈ after, Taken path other →
          (readComponents other.mPath).length ≤ (readComponents mp.mPath).length := by
  unfold mostRead
  rw [argmax_eq_some_iff_split]
  constructor
  · rintro ⟨before, after, same, lower, notHigher⟩
    obtain ⟨front, back, rfl, rfl, isRest⟩ := filter_eq_append_iff.mp same
    obtain ⟨between, behind, rfl, notTaken, taken, rfl⟩ := filter_eq_cons_iff.mp isRest
    refine ⟨front ++ between, behind, by rw [append_assoc], of_decide_eq_true taken, ?_, ?_⟩
    · intro other member otherTaken
      rcases mem_append.mp member with inFront | inBetween
      · exact lower other (mem_filter.mpr ⟨inFront, decide_eq_true otherTaken⟩)
      · exact absurd (decide_eq_true otherTaken) (notTaken other inBetween)
    · exact fun other member otherTaken =>
        notHigher other (mem_filter.mpr ⟨member, decide_eq_true otherTaken⟩)
  · rintro ⟨before, after, rfl, taken, lower, notHigher⟩
    refine ⟨_, _, by rw [filter_append, filter_cons, if_pos (decide_eq_true taken)],
      ?_, ?_⟩
    · exact fun other member => lower other (mem_filter.mp member).1
        (of_decide_eq_true (mem_filter.mp member).2)
    · exact fun other member => notHigher other (mem_filter.mp member).1
        (of_decide_eq_true (mem_filter.mp member).2)

/-- The search returns the right mount point exactly when it is right about the path. -/
theorem right_iff (mountPoints : List MountPoint) (path : CString) :
    Right mountPoints path (vfsMpFindRecursive mountPoints path) ↔
      ReadRight mountPoints path := by
  rw [vfsMpFindRecursive_eq]
  constructor
  · intro right
    cases isMost : mostRead mountPoints path with
    | none =>
      rw [isMost] at right
      exact .inl fun mp member => ⟨right mp member, mostRead_eq_none_iff.mp isMost mp member⟩
    | some mp =>
      rw [isMost] at right
      obtain ⟨before, after, same, taken, lower, notHigher⟩ := mostRead_eq_some_iff.mp isMost
      exact .inr ⟨before, mp, after, same, right, taken, lower, notHigher⟩
  · rintro (nothing | ⟨before, mp, after, same, right, taken, lower, notHigher⟩)
    · rw [mostRead_eq_none_iff.mpr fun mp member => (nothing mp member).2]
      exact fun mp member => (nothing mp member).1
    · rw [mostRead_eq_some_iff.mpr ⟨before, after, same, taken, lower, notHigher⟩]
      exact right

end Finding

/-! ### What is unmounted -/

section Unmounting

variable {st : State} {target : CString} {mp : MountPoint} {recursive second : Bool}
  {result : Int}

/-- The mount point that is found has the target's path exactly when the first one that is taken
for the target has it. -/
theorem mPath_eq_iff (found : vfsMpFind recursive st target = some mp) :
    mp.mPath = target ↔ NamedFirst recursive st.mountPoints target := by
  unfold vfsMpFind at found
  cases recursive with
  | false =>
    obtain ⟨taken, before, after, same, others⟩ := List.find?_eq_some_iff_append.mp found
    constructor
    · exact fun isTarget => ⟨before, mp, after, same, isTarget, taken, fun other member holds =>
        absurd holds (by simpa [TakenForTarget] using others other member)⟩
    · rintro ⟨front, named, back, isList, isTarget, isTaken, noOther⟩
      have again : st.vfsMpFind target = some named := by
        refine List.find?_eq_some_iff_append.mpr
          ⟨isTaken, front, back, isList, fun other member => ?_⟩
        simpa [TakenForTarget] using noOther other member
      rw [some.inj (found.symm.trans again)]
      exact isTarget
  | true =>
    rw [vfsMpFindRecursive_eq] at found
    constructor
    · intro isTarget
      obtain ⟨before, after, same, taken, lower, -⟩ := mostRead_eq_some_iff.mp found
      rw [isTarget] at lower
      have some_ := taken.1
      rw [isTarget] at some_
      refine ⟨before, mp, after, same, isTarget, ⟨some_, by rw [isTarget]⟩, ?_⟩
      rintro other member ⟨-, alike⟩
      have less := lower other member ⟨alike ▸ some_, alike ▸ prefix_rfl⟩
      rw [alike] at less
      exact absurd less (Nat.lt_irrefl _)
    · rintro ⟨front, named, back, isList, isTarget, ⟨some_, alike⟩, noOther⟩
      have again : mostRead st.mountPoints target = some named := by
        refine mostRead_eq_some_iff.mpr ⟨front, back, isList,
          ⟨alike ▸ some_, alike ▸ prefix_rfl⟩, fun other member taken => ?_,
          fun other member taken => ?_⟩
        · rw [alike]
          refine Nat.lt_of_le_of_ne taken.2.length_le fun sameLength => ?_
          exact noOther other member ⟨some_, taken.2.eq_of_length sameLength⟩
        · rw [alike]
          exact taken.2.length_le
      rw [some.inj (found.symm.trans again)]
      exact isTarget

theorem mem_of_vfsMpFind (found : vfsMpFind recursive st target = some mp) :
    mp ∈ st.mountPoints := by
  unfold vfsMpFind at found
  cases recursive with
  | false => exact mem_of_find?_eq_some found
  | true =>
    rw [vfsMpFindRecursive_eq] at found
    exact (mem_filter.mp (argmax_mem found)).1

theorem umount_success (succeeds : (umount recursive second st (some target) result).2 = losOk) :
    ∃ mp, vfsMpFind recursive st target = some mp ∧
      (umount recursive second st (some target) result).1.mountPoints =
        st.mountPoints.eraseP fun one => one.address = mp.address := by
  unfold umount at succeeds ⊢
  split at succeeds
  · exact absurd succeeds losNok_ne_losOk
  rename_i path isPath
  obtain rfl : target = path := by
    exact (filter_eq_some_iff.mp isPath).1 |> some.inj
  split at succeeds
  · exact absurd succeeds losNok_ne_losOk
  rename_i mp isFound
  refine ⟨mp, isFound, ?_⟩
  split at succeeds
  · exact absurd succeeds losNok_ne_losOk
  rename_i noRefs
  rw [if_neg noRefs]
  split at succeeds
  · exact absurd succeeds losNok_ne_losOk
  split at succeeds
  · exact absurd succeeds losNok_ne_losOk
  rename_i callback
  rw [if_neg callback]
  split at succeeds
  · exact absurd succeeds losNok_ne_losOk
  · rename_i driver
    rw [if_neg driver]
    rfl

/-- What is taken off the list by its address has the target's path exactly when the mount point
with the target's path is removed. -/
theorem removes_iff (distinct : (st.mountPoints.map MountPoint.address).Nodup)
    (member : mp ∈ st.mountPoints) :
    Removes st.mountPoints (st.mountPoints.eraseP fun one => one.address = mp.address) target ↔
      mp.mPath = target := by
  have alone := distinct.of_map
  obtain ⟨same, front, back, -, isSame, isList, isErased⟩ :=
    exists_of_eraseP (p := fun one => decide (one.address = mp.address)) member
      (decide_eq_true rfl)
  have inList : same ∈ st.mountPoints := by
    rw [isList]
    exact mem_append_right _ (.head _)
  obtain rfl : same = mp :=
    inj_on_of_nodup_map distinct inList member (of_decide_eq_true isSame)
  rw [isErased]
  constructor
  · rintro ⟨front', mp, back', isList', isTarget, isRest⟩
    have outside : mp ∉ front' ++ back' := by
      rw [isList'] at alone
      exact (nodup_cons.mp (nodup_middle.mp alone)).1
    have inside : mp ∈ front ++ same :: back := by
      rw [← isList, isList']
      exact mem_append_right _ (.head _)
    rw [← isRest] at outside
    rw [mem_append] at inside outside
    rcases inside with inFront | inBack
    · exact absurd (.inl inFront) outside
    · rcases mem_cons.mp inBack with rfl | inBack
      · exact isTarget
      · exact absurd (.inr inBack) outside
  · exact fun isTarget => ⟨front, same, back, isList, isTarget, rfl⟩

/-- The search of a build with mounts below mounts is right about a path, and an unmounting that
succeeds, in either build, takes off exactly the mount point with the path that was named, exactly
when the search reads the paths right and the first mount point that is taken for the target has its
path. -/
theorem mounts_iff (distinct : (st.mountPoints.map MountPoint.address).Nodup) (path : CString)
    (recursive second : Bool) (target : CString) (result : Int) :
    (Right st.mountPoints path (vfsMpFind true st path) ∧
        ((umount recursive second st (some target) result).2 = losOk →
          Removes st.mountPoints (umount recursive second st (some target) result).1.mountPoints
            target)) ↔
      ReadRight st.mountPoints path ∧
        ((umount recursive second st (some target) result).2 = losOk →
          NamedFirst recursive st.mountPoints target) := by
  refine and_congr (right_iff _ _) (forall_congr' fun succeeds => ?_)
  obtain ⟨mp, found, isErased⟩ := umount_success succeeds
  rw [isErased, removes_iff distinct (mem_of_vfsMpFind found), mPath_eq_iff found]

end Unmounting

def sampleMount (address : Address) (mPath : CString) : MountPoint :=
  ⟨address, 1, mPath, 0, true⟩

/-- One file system type, and mount points of it. -/
def sampleState (mountPoints : List MountPoint) : State :=
  ⟨[⟨1, "fat".toList, ⟨true, true, true⟩, ⟨true, true, true, true⟩, 2⟩], mountPoints, [], [], 0⟩

def sampleList : List MountPoint :=
  [sampleMount 2 "/data/app".toList, sampleMount 3 "/data".toList]

theorem mounts_iff_sample : (Right sampleList "/data/app/x".toList
        (vfsMpFind true (sampleState sampleList) "/data/app/x".toList) ∧
      ((umount true false (sampleState sampleList) (some "/data".toList) 0).2 = losOk →
        Removes sampleList
          (umount true false (sampleState sampleList) (some "/data".toList) 0).1.mountPoints
          "/data".toList)) ↔
      ReadRight sampleList "/data/app/x".toList ∧
        ((umount true false (sampleState sampleList) (some "/data".toList) 0).2 = losOk →
          NamedFirst true sampleList "/data".toList) :=
  @mounts_iff (sampleState sampleList) (by decide) _ _ _ _ _

/-- With a slash more in front the mount point is not found, and unmounting a directory below the
mount point unmounts the mount point. -/
theorem slash_and_directory :
    (vfsMpFind true (sampleState [sampleMount 2 "/data".toList]) "//data/x".toList = none ∧
        Above "//data/x".toList (sampleMount 2 "/data".toList)) ∧
      (umount true false (sampleState [sampleMount 2 "/data".toList]) (some "/data/x".toList) 0).2 =
          losOk ∧
        (umount true false (sampleState [sampleMount 2 "/data".toList])
          (some "/data/x".toList) 0).1.mountPoints = [] := by
  decide

end TowerSafe.VfsMount
