/-
This file is a small library of adjacent segments: blocks with an address and a positive size
that follow each other without a gap from a start to a stop. Blocks of a tiling are inside its
bounds, are pairwise apart, and are identified by their address.
-/

import Mathlib.Data.List.Basic

namespace TowerSafe.Library

open List

variable {Block : Type} {address size : Block → Nat}

/-- The blocks cover the addresses from `start` to `stop` in order, without gap or overlap. -/
def Tiles (address size : Block → Nat) : Nat → List Block → Nat → Prop
  | start, [], stop => start = stop
  | start, block :: rest, stop =>
      address block = start ∧ 0 < size block ∧ Tiles address size (start + size block) rest stop

def Apart (first firstSize second secondSize : Nat) : Prop :=
  first + firstSize ≤ second ∨ second + secondSize ≤ first

theorem tiles_append {start stop : Nat} {front back : List Block} :
    Tiles address size start (front ++ back) stop ↔
      ∃ middle, Tiles address size start front middle ∧ Tiles address size middle back stop := by
  induction front generalizing start with
  | nil => simp [Tiles]
  | cons block rest hypothesis =>
    simp only [cons_append, Tiles, hypothesis]
    constructor
    · rintro ⟨same, positive, middle, left, right⟩
      exact ⟨middle, ⟨same, positive, left⟩, right⟩
    · rintro ⟨middle, ⟨same, positive, left⟩, right⟩
      exact ⟨same, positive, middle, left, right⟩

theorem tiles_stop_unique {start stop stop' : Nat} {blocks : List Block}
    (tiles : Tiles address size start blocks stop)
    (tiles' : Tiles address size start blocks stop') : stop = stop' := by
  induction blocks generalizing start with
  | nil => exact tiles.symm.trans tiles'
  | cons block rest hypothesis => exact hypothesis tiles.2.2 tiles'.2.2

namespace Tiles

variable {start stop : Nat} {blocks : List Block}

section

variable (tiles : Tiles address size start blocks stop)
include tiles

theorem le : start ≤ stop := by
  induction blocks generalizing start with
  | nil => exact Nat.le_of_eq tiles
  | cons block rest hypothesis =>
    obtain ⟨-, -, tail⟩ := tiles
    exact Nat.le_trans (Nat.le_add_right _ _) (hypothesis tail)

theorem bounds {block : Block} (member : block ∈ blocks) :
    start ≤ address block ∧ address block + size block ≤ stop ∧ 0 < size block := by
  induction blocks generalizing start with
  | nil => exact nomatch member
  | cons head rest hypothesis =>
    obtain ⟨rfl, positive, tail⟩ := tiles
    rcases mem_cons.mp member with rfl | old
    · exact ⟨Nat.le_refl _, tail.le, positive⟩
    · obtain ⟨lower, upper, nonempty⟩ := hypothesis tail old
      exact ⟨Nat.le_trans (Nat.le_add_right _ _) lower, upper, nonempty⟩

theorem length_le : start + blocks.length ≤ stop := by
  induction blocks generalizing start with
  | nil => exact Nat.le_of_eq tiles
  | cons block rest hypothesis =>
    obtain ⟨-, positive, tail⟩ := tiles
    have later := hypothesis tail
    rw [length_cons]
    omega

theorem apart {first second : Block}
    (firstMember : first ∈ blocks) (secondMember : second ∈ blocks) :
    first = second ∨ Apart (address first) (size first) (address second) (size second) := by
  induction blocks generalizing start with
  | nil => exact nomatch firstMember
  | cons head rest hypothesis =>
    obtain ⟨rfl, -, tail⟩ := tiles
    rcases mem_cons.mp firstMember with rfl | firstOld
    · rcases mem_cons.mp secondMember with rfl | secondOld
      · exact .inl rfl
      · exact .inr (.inl (tail.bounds secondOld).1)
    · rcases mem_cons.mp secondMember with rfl | secondOld
      · exact .inr (.inr (tail.bounds firstOld).1)
      · exact hypothesis tail firstOld secondOld

theorem eq_of_address_eq {first second : Block}
    (firstMember : first ∈ blocks) (secondMember : second ∈ blocks)
    (same : address first = address second) : first = second := by
  have firstPositive := (tiles.bounds firstMember).2.2
  have secondPositive := (tiles.bounds secondMember).2.2
  rcases tiles.apart firstMember secondMember with equal | before | after
  · exact equal
  · omega
  · omega

theorem address_nodup : (blocks.map address).Nodup := by
  induction blocks generalizing start with
  | nil => exact nodup_nil
  | cons head rest hypothesis =>
    obtain ⟨rfl, positive, tail⟩ := tiles
    refine nodup_cons.mpr ⟨fun member => ?_, hypothesis tail⟩
    obtain ⟨other, old, same⟩ := mem_map.mp member
    have later := (tail.bounds old).1
    omega

end

theorem exists_head {measure : Nat → Nat} {nodes : List Nat}
    (tiles : Tiles id measure start nodes stop) (before : start ≠ stop) :
    ∃ rest, nodes = start :: rest ∧ Tiles id measure (start + measure start) rest stop := by
  cases nodes with
  | nil => exact absurd tiles before
  | cons head rest =>
    obtain ⟨same, -, tail⟩ := tiles
    obtain rfl : head = start := same
    exact ⟨rest, rfl, tail⟩

theorem map_address {measure : Nat → Nat} (tiles : Tiles address size start blocks stop)
    (same : ∀ block ∈ blocks, measure (address block) = size block) :
    Tiles id measure start (blocks.map address) stop := by
  induction blocks generalizing start with
  | nil => exact tiles
  | cons head rest hypothesis =>
    obtain ⟨rfl, positive, tail⟩ := tiles
    have headSize := same head mem_cons_self
    refine ⟨rfl, by rwa [headSize], ?_⟩
    rw [headSize]
    exact hypothesis tail fun block member => same block (mem_cons_of_mem _ member)

end Tiles

/-! ### Segments that may be empty -/

/-- The segments, each with its start and its size, follow each other from `start` to `stop`. -/
def Segments : Nat → List (Nat × Nat) → Nat → Prop
  | start, [], stop => start = stop
  | start, segment :: rest, stop => segment.1 = start ∧ Segments (start + segment.2) rest stop

namespace Segments

variable {start stop : Nat} {segments : List (Nat × Nat)}

theorem inside (fill : Segments start segments stop) {segment : Nat × Nat}
    (member : segment ∈ segments) : start ≤ segment.1 ∧ segment.1 + segment.2 ≤ stop := by
  have le : ∀ {start : Nat} {segments : List (Nat × Nat)},
      Segments start segments stop → start ≤ stop := by
    intro start segments
    induction segments generalizing start with
    | nil => exact Nat.le_of_eq
    | cons head rest hypothesis =>
      exact fun fill => Nat.le_trans (Nat.le_add_right _ _) (hypothesis fill.2)
  induction segments generalizing start with
  | nil => exact absurd member not_mem_nil
  | cons head rest hypothesis =>
    obtain ⟨rfl, tail⟩ := fill
    rcases mem_cons.mp member with rfl | member
    · exact ⟨Nat.le_refl _, le tail⟩
    · have further := hypothesis tail member
      exact ⟨by omega, further.2⟩

theorem apart (fill : Segments start segments stop) :
    segments.Pairwise fun first second => first.1 + first.2 ≤ second.1 := by
  induction segments generalizing start with
  | nil => exact List.Pairwise.nil
  | cons head rest hypothesis =>
    obtain ⟨rfl, tail⟩ := fill
    exact List.Pairwise.cons (fun segment member => (tail.inside member).1) (hypothesis tail)

end Segments

end TowerSafe.Library
