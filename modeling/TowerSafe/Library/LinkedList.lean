/-
This file is a small library of doubly linked lists that are threaded through two link
functions and end at a null node. A list is read as a path from its first node; pushing a
node in front and unlinking a node are stated as conditions on the link functions after the
update, so that a caller only has to say which links it wrote and which it left alone.
-/

import Mathlib.Data.List.Basic

namespace TowerSafe.Library

open List

variable {Node : Type}

/-- The nodes are linked in order: the first is entered from `before`, every node points
back at the node it was entered from, and the last one leaves to `after`. -/
def Path (prev next : Node → Node) : Node → Node → List Node → Node → Prop
  | _, first, [], after => first = after
  | before, first, node :: rest, after =>
      first = node ∧ prev node = before ∧ Path prev next node (next node) rest after

section Path

variable {prev next prev' next' : Node → Node} {before first after : Node}

theorem path_append {front back : List Node} : Path prev next before first (front ++ back) after ↔
      ∃ middle, Path prev next before first front middle ∧
        Path prev next (front.getLastD before) middle back after := by
  induction front generalizing before first with
  | nil => simp [Path]
  | cons node rest hypothesis =>
    simp only [cons_append, Path, hypothesis, getLastD_cons]
    constructor
    · rintro ⟨same, back, middle, left, right⟩
      exact ⟨middle, ⟨same, back, left⟩, right⟩
    · rintro ⟨middle, ⟨same, back, left⟩, right⟩
      exact ⟨same, back, middle, left, right⟩

theorem Path.congr {nodes : List Node} (path : Path prev next before first nodes after)
    (samePrev : ∀ node ∈ nodes, prev' node = prev node)
    (sameNext : ∀ node ∈ nodes, next' node = next node) :
    Path prev' next' before first nodes after := by
  induction nodes generalizing before first with
  | nil => exact path
  | cons node rest hypothesis =>
    obtain ⟨same, back, tail⟩ := path
    refine ⟨same, (samePrev node mem_cons_self).trans back, ?_⟩
    rw [sameNext node mem_cons_self]
    exact hypothesis tail (fun other member => samePrev other (mem_cons_of_mem _ member))
      (fun other member => sameNext other (mem_cons_of_mem _ member))

theorem Path.reenter {nodes : List Node} {entry : Node} (distinct : nodes.Nodup)
    (path : Path prev next before first nodes after) (entered : first ∈ nodes → prev' first = entry)
    (samePrev : ∀ node ∈ nodes, node ≠ first → prev' node = prev node)
    (sameNext : ∀ node ∈ nodes, next' node = next node) :
    Path prev' next' entry first nodes after := by
  cases nodes with
  | nil => exact path
  | cons node rest =>
    obtain ⟨rfl, -, tail⟩ := path
    have fresh : first ∉ rest := (nodup_cons.mp distinct).1
    refine ⟨rfl, entered mem_cons_self, ?_⟩
    rw [sameNext first mem_cons_self]
    refine tail.congr (fun other member => ?_)
      (fun other member => sameNext other (mem_cons_of_mem _ member))
    exact samePrev other (mem_cons_of_mem _ member) fun same => fresh (same ▸ member)

end Path

/-- A null-terminated doubly linked list: its first node, or null, and its distinct nodes. -/
structure Listed (prev next : Node → Node) (null first : Node) (nodes : List Node) : Prop where
  path : Path prev next null first nodes null
  real : null ∉ nodes
  distinct : nodes.Nodup

namespace Listed

variable {prev next prev' next' : Node → Node} {null first node : Node} {nodes : List Node}

section

variable (listed : Listed prev next null first nodes)
include listed

theorem first_eq_null_iff : first = null ↔ nodes = [] := by
  cases nodes with
  | nil => exact ⟨fun _ => rfl, fun _ => listed.path⟩
  | cons node rest =>
    obtain ⟨rfl, -, -⟩ := listed.path
    exact ⟨fun same => absurd (same ▸ mem_cons_self) listed.real, nofun⟩

theorem first_mem (real : first ≠ null) : first ∈ nodes := by
  cases nodes with
  | nil => exact absurd listed.path real
  | cons node rest =>
    obtain ⟨rfl, -, -⟩ := listed.path
    exact mem_cons_self

theorem congr (samePrev : ∀ node ∈ nodes, prev' node = prev node)
    (sameNext : ∀ node ∈ nodes, next' node = next node) : Listed prev' next' null first nodes :=
  ⟨listed.path.congr samePrev sameNext, listed.real, listed.distinct⟩

theorem push (fresh : node ∉ nodes)
    (real : node ≠ null) (back : prev' node = null) (forth : next' node = first)
    (entered : first ≠ null → prev' first = node)
    (samePrev : ∀ other ∈ nodes, other ≠ first → prev' other = prev other)
    (sameNext : ∀ other ∈ nodes, next' other = next other) :
    Listed prev' next' null node (node :: nodes) := by
  refine ⟨⟨rfl, back, ?_⟩, ?_, nodup_cons.mpr ⟨fresh, listed.distinct⟩⟩
  · rw [forth]
    refine listed.path.reenter listed.distinct (fun member => entered fun same => ?_) samePrev
      sameNext
    exact listed.real (same ▸ member)
  · intro member
    rcases mem_cons.mp member with same | old
    · exact real same.symm
    · exact listed.real old

section

variable (member : node ∈ nodes)
include member

theorem split :
    ∃ front back, nodes = front ++ node :: back ∧ Path prev next null first front node ∧
      prev node = front.getLastD null ∧ Path prev next node (next node) back null := by
  obtain ⟨front, back, rfl⟩ := append_of_mem member
  obtain ⟨middle, left, same, link, right⟩ := path_append.mp listed.path
  subst same
  exact ⟨front, back, rfl, left, link, right⟩

/-- The back link of a member is null exactly at the first node. -/
theorem prev_eq_null_iff : prev node = null ↔ node = first := by
  obtain ⟨front, back, rfl, left, link, -⟩ := listed.split member
  rw [link]
  rcases eq_nil_or_concat' front with rfl | ⟨init, last, rfl⟩
  · exact iff_of_true rfl (show first = node from left).symm
  rw [getLastD_concat]
  refine iff_of_false (fun same => ?_) fun same => ?_
  · exact listed.real (same ▸ mem_append_left _ (mem_append_right _ mem_cons_self))
  · have inFront : first ∈ init ++ [last] := by
      cases init with
      | nil => rw [left.1]; exact mem_cons_self
      | cons head tail => rw [left.1]; exact mem_cons_self
    exact (nodup_append.mp listed.distinct).2.2 first inFront node mem_cons_self same.symm

theorem prev_mem
    (real : prev node ≠ null) : prev node ∈ nodes ∧ prev node ≠ node := by
  obtain ⟨front, back, rfl, -, link, -⟩ := listed.split member
  rcases eq_nil_or_concat' front with rfl | ⟨init, last, rfl⟩
  · exact absurd link real
  rw [getLastD_concat] at link
  have inFront : last ∈ init ++ [last] := mem_append_right _ mem_cons_self
  rw [link]
  exact ⟨mem_append_left _ inFront,
    (nodup_append.mp listed.distinct).2.2 last inFront node mem_cons_self⟩

theorem next_mem
    (real : next node ≠ null) : next node ∈ nodes ∧ next node ≠ node := by
  obtain ⟨front, back, rfl, -, -, right⟩ := listed.split member
  cases back with
  | nil => exact absurd right real
  | cons head tail =>
    have distinct := (nodup_cons.mp (nodup_append.mp listed.distinct).2.1).1
    rw [right.1]
    refine ⟨mem_append_right _ (mem_cons_of_mem _ mem_cons_self), fun same => ?_⟩
    exact distinct (same ▸ mem_cons_self)

/-- Unlinking a member: the forward link of its predecessor skips it, or the list starts
after it, and the back link of its successor skips it. -/
theorem remove [DecidableEq Node]
    (skipForth : prev node ≠ null → next' (prev node) = next node)
    (skipBack : next node ≠ null → prev' (next node) = prev node)
    (samePrev : ∀ other ∈ nodes, other ≠ next node → prev' other = prev other)
    (sameNext : ∀ other ∈ nodes, other ≠ prev node → next' other = next other) :
    Listed prev' next' null (if node = first then next node else first) (nodes.erase node) := by
  obtain ⟨front, back, rfl, left, link, right⟩ := listed.split member
  have distinct := listed.distinct
  obtain ⟨frontDistinct, backDistinct', apart⟩ := nodup_append.mp distinct
  obtain ⟨nodeFresh, backDistinct⟩ := nodup_cons.mp backDistinct'
  have nodeNotFront : node ∉ front := fun old => apart node old node mem_cons_self rfl
  have erased : (front ++ node :: back).erase node = front ++ back := by
    rw [erase_append_right _ nodeNotFront, erase_cons_head]
  have nextMember : ∀ {other}, other = next node → other ∈ back ∨ other = null := by
    intro other same
    cases back with
    | nil => exact .inr (same.trans right)
    | cons head tail => exact .inl (by rw [same, right.1]; exact mem_cons_self)
  have nullNotFront : null ∉ front := fun old => listed.real (mem_append_left _ old)
  have nullNotBack : null ∉ back := fun old =>
    listed.real (mem_append_right _ (mem_cons_of_mem _ old))
  rw [erased]
  refine ⟨?_, fun old => ?_, nodup_append.mpr ⟨frontDistinct, backDistinct, ?_⟩⟩
  · have backPath : Path prev' next' (front.getLastD null) (next node) back null := by
      refine right.reenter backDistinct (fun inBack => ?_) (fun other inBack notFirst => ?_)
        (fun other inBack => ?_)
      · rw [skipBack fun same => nullNotBack (same ▸ inBack), link]
      · exact samePrev other (mem_append_right _ (mem_cons_of_mem _ inBack)) notFirst
      · refine sameNext other (mem_append_right _ (mem_cons_of_mem _ inBack)) ?_
        rw [link]
        rcases eq_nil_or_concat' front with rfl | ⟨init, last, rfl⟩
        · exact fun same => nullNotBack ((show other = null from same) ▸ inBack)
        · rw [getLastD_concat]
          exact fun same => apart last (by simp) other (mem_cons_of_mem _ inBack) same.symm
    have frontPrev : ∀ other ∈ front, prev' other = prev other := fun other inFront =>
      samePrev other (mem_append_left _ inFront) fun same => by
        rcases nextMember same with inBack | isNull
        · exact apart other inFront other (mem_cons_of_mem _ inBack) rfl
        · exact nullNotFront (isNull ▸ inFront)
    rcases eq_nil_or_concat' front with rfl | ⟨init, last, rfl⟩
    · have same : first = node := left
      rw [if_pos same.symm]
      exact backPath
    have firstNotNode : node ≠ first := by
      intro same
      have inFront : first ∈ init ++ [last] := by
        cases init with
        | nil => rw [left.1]; exact mem_cons_self
        | cons head tail => rw [left.1]; exact mem_cons_self
      exact nodeNotFront (same ▸ inFront)
    rw [if_neg firstNotNode]
    refine path_append.mpr ⟨next node, ?_, backPath⟩
    obtain ⟨middle, initPath, sameMiddle, lastBack, -⟩ := path_append.mp left
    subst sameMiddle
    rw [getLastD_concat] at link
    have lastNotNull : middle ≠ null := fun same =>
      nullNotFront (same ▸ mem_append_right _ mem_cons_self)
    have lastFresh : middle ∉ init := fun old =>
      (nodup_append.mp frontDistinct).2.2 middle old middle mem_cons_self rfl
    refine path_append.mpr ⟨middle, ?_, rfl, ?_, ?_⟩
    · refine initPath.congr (fun other inInit => frontPrev other (mem_append_left _ inInit))
        (fun other inInit => ?_)
      refine sameNext other (mem_append_left _ (mem_append_left _ inInit)) ?_
      rw [link]
      exact fun same => lastFresh (same ▸ inInit)
    · rw [frontPrev middle (mem_append_right _ mem_cons_self), lastBack]
    · rw [← link]
      exact skipForth (by rw [link]; exact lastNotNull)
  · rcases mem_append.mp old with inFront | inBack
    · exact nullNotFront inFront
    · exact nullNotBack inBack
  · intro first' inFront second inBack
    exact apart first' inFront second (mem_cons_of_mem _ inBack)

end

end

end Listed

end TowerSafe.Library
