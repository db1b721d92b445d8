/-
This file is a small library of computations that read memory, may fail, and remember which areas
they read. The rules say when all that a computation read lies inside an area, and what a
computation that succeeds has computed, one step at a time.
-/

import TowerSafe.Library.Bytes

namespace TowerSafe.Library

open List

/-- Some addresses that follow one another. -/
structure Area where
  addr : Nat
  size : Nat
  deriving DecidableEq

namespace Area

def end_ (area : Area) : Nat := area.addr + area.size

def Inside (area outer : Area) : Prop := outer.addr ≤ area.addr ∧ area.end_ ≤ outer.end_

instance (area outer : Area) : Decidable (area.Inside outer) := inferInstanceAs (Decidable (_ ∧ _))

theorem Inside.trans {inner area outer : Area} (first : inner.Inside area)
    (second : area.Inside outer) : inner.Inside outer :=
  ⟨second.1.trans first.1, first.2.trans second.2⟩

/-- Areas that follow one another from an address on. -/
def Consecutive (start : Nat) : List Area → Prop
  | [] => True
  | area :: rest => area.addr = start ∧ Consecutive area.end_ rest

theorem Consecutive.inside {start : Nat} {areas : List Area} {outer : Area}
    (consecutive : Consecutive start areas) (first : outer.addr ≤ start)
    (last : ∀ area, areas.getLast? = some area → area.end_ ≤ outer.end_) :
    ∀ area ∈ areas, area.Inside outer := by
  induction areas generalizing start with
  | nil => exact fun _ no => absurd no not_mem_nil
  | cons area rest hypothesis =>
    obtain ⟨rfl, consecutive⟩ := consecutive
    cases rest with
    | nil => exact forall_mem_singleton.mpr ⟨first, last area rfl⟩
    | cons second rest =>
      have inside := hypothesis consecutive (first.trans (Nat.le_add_right _ _)) last
      obtain ⟨-, stop⟩ := inside second mem_cons_self
      have joined : area.end_ ≤ outer.end_ :=
        consecutive.1 ▸ (Nat.le_add_right second.addr second.size).trans stop
      exact forall_mem_cons.mpr ⟨⟨first, joined⟩, inside⟩

/-- What stands in an area. -/
def bytes (memory : Nat → BitVec 8) (area : Area) : Bytes :=
  (List.range area.size).map fun place => memory (area.addr + place)

theorem length_bytes (memory : Nat → BitVec 8) (area : Area) :
    (area.bytes memory).length = area.size := by
  rw [bytes, length_map, length_range]

theorem bytes_add (memory : Nat → BitVec 8) (addr first second : Nat) :
    bytes memory ⟨addr, first + second⟩ =
      bytes memory ⟨addr, first⟩ ++ bytes memory ⟨addr + first, second⟩ := by
  rw [bytes, range_add, map_append, map_map]
  refine congrArg _ (map_congr_left fun place _ => ?_)
  rw [Function.comp_apply, Nat.add_assoc]

theorem bytes_part {memory : Nat → BitVec 8} {area : Area} {before part after : Bytes}
    (whole : area.bytes memory = before ++ (part ++ after)) :
    bytes memory ⟨area.addr + before.length, part.length⟩ = part := by
  have size : area.size = before.length + (part.length + after.length) := by
    rw [← length_bytes memory area, whole, length_append, length_append]
  have parts : bytes memory ⟨area.addr, area.size⟩ = before ++ (part ++ after) := whole
  rw [size, bytes_add, bytes_add] at parts
  have behind := (append_inj parts (length_bytes _ _)).2
  exact (append_inj behind (length_bytes _ _)).1

theorem bytes_congr {memory other : Nat → BitVec 8} {area : Area}
    (same : ∀ address, area.addr ≤ address → address < area.end_ →
      memory address = other address) : area.bytes memory = area.bytes other :=
  map_congr_left fun _ member =>
    same _ (Nat.le_add_right _ _) (Nat.add_lt_add_left (mem_range.mp member) _)

/-- The memory after some bytes were written. -/
def store (memory : Nat → BitVec 8) (addr : Nat) (source : Bytes) (address : Nat) : BitVec 8 :=
  if addr ≤ address ∧ address < addr + source.length then source.getD (address - addr) 0
  else memory address

theorem bytes_store (memory : Nat → BitVec 8) (addr : Nat) (source : Bytes) :
    bytes (store memory addr source) ⟨addr, source.length⟩ = source := by
  refine ext_getElem (length_bytes _ _) fun place inside within => ?_
  have later : addr ≤ addr + place ∧ addr + place < addr + source.length :=
    ⟨Nat.le_add_right _ _, Nat.add_lt_add_left within _⟩
  simp only [bytes, getElem_map, getElem_range, store, if_pos later,
    Nat.add_sub_cancel_left, getD_eq_getElem _ _ within]

theorem store_outside {memory : Nat → BitVec 8} {addr address : Nat} {source : Bytes}
    (outside : address < addr ∨ addr + source.length ≤ address) :
    store memory addr source address = memory address :=
  if_neg fun inside => by omega

end Area

/-- The result of a computation, and the areas it has read. -/
structure Reading (Error Value : Type) where
  result : Except Error Value
  reads : List Area

namespace Reading

variable {Error Value Next : Type}

instance : Monad (Reading Error) where
  pure value := ⟨.ok value, []⟩
  bind reading next :=
    match reading.result with
    | .error error => ⟨.error error, reading.reads⟩
    | .ok value => ⟨(next value).result, reading.reads ++ (next value).reads⟩

def fail (error : Error) : Reading Error Value := ⟨.error error, []⟩

def ofOption (error : Error) : Option Value → Reading Error Value
  | none => fail error
  | some value => pure value

def read (memory : Nat → BitVec 8) (area : Area) : Reading Error Bytes :=
  ⟨.ok (area.bytes memory), [area]⟩

def Within (outer : Area) (reading : Reading Error Value) : Prop :=
  ∀ area ∈ reading.reads, area.Inside outer

variable {outer : Area} {reading : Reading Error Value} {next : Value → Reading Error Next}

theorem within_pure {value : Value} : (pure value : Reading Error Value).Within outer :=
  fun _ no => absurd no not_mem_nil

theorem within_fail {error : Error} : (fail error : Reading Error Value).Within outer :=
  fun _ no => absurd no not_mem_nil

theorem within_ofOption {error : Error} {value : Option Value} :
    (ofOption error value).Within outer := by
  cases value with
  | none => exact within_fail
  | some value => exact within_pure

theorem within_read {memory : Nat → BitVec 8} {area : Area} :
    (read memory area : Reading Error Bytes).Within outer ↔ area.Inside outer :=
  forall_mem_singleton

def All (allowed : Area → Prop) (reading : Reading Error Value) : Prop :=
  ∀ area ∈ reading.reads, allowed area

theorem all_bind {allowed : Area → Prop} : (reading >>= next).All allowed ↔
      reading.All allowed ∧ ∀ value, reading.result = .ok value → (next value).All allowed := by
  obtain ⟨result, reads⟩ := reading
  cases result with
  | error error =>
    exact ⟨fun within => ⟨within, fun _ no => (by cases no)⟩, fun within => within.1⟩
  | ok value =>
    refine ⟨fun within => ⟨fun area member => within area (mem_append_left _ member),
      fun again same area member => ?_⟩, fun within area member => ?_⟩
    · obtain rfl := Except.ok.inj same
      exact within area (mem_append_right _ member)
    · rcases mem_append.mp member with member | member
      · exact within.1 area member
      · exact within.2 value rfl area member

theorem within_bind : (reading >>= next).Within outer ↔
      reading.Within outer ∧ ∀ value, reading.result = .ok value → (next value).Within outer :=
  all_bind

theorem result_pure {value after : Value} :
    (pure value : Reading Error Value).result = .ok after ↔ value = after :=
  ⟨fun same => Except.ok.inj same, fun same => congrArg Except.ok same⟩

theorem result_ofOption {error : Error} {option : Option Value} {value : Value} :
    (ofOption error option).result = .ok value ↔ option = some value := by
  cases option with
  | none => exact iff_of_false (fun no => by cases no) fun no => by cases no
  | some other => exact result_pure.trans ⟨congrArg some, Option.some.inj⟩

theorem result_bind {after : Next} : (reading >>= next).result = .ok after ↔
      ∃ value, reading.result = .ok value ∧ (next value).result = .ok after := by
  obtain ⟨result, reads⟩ := reading
  cases result with
  | error error => exact iff_of_false (fun no => by cases no) fun ⟨_, no, _⟩ => by cases no
  | ok value =>
    refine ⟨fun same => ⟨value, rfl, same⟩, fun ⟨again, same, rest⟩ => ?_⟩
    obtain rfl := Except.ok.inj same
    exact rest

theorem Within.mono {area : Area} (within : reading.Within area) (inside : area.Inside outer) :
    reading.Within outer := fun read member => (within read member).trans inside

end Reading

end TowerSafe.Library
