/-
This file is a small library of tries whose sets of siblings are binary search trees: a node has a
key and data, a left and a right subtree of siblings, and a child, which is the tree of the keys
that may follow it. The rules say what looking a path up gives after a path has been added, node by
node as long as nodes can be allocated, and after the data at a path have been changed, and that the
siblings stay sorted, so that a sibling is found from every node above it.
-/

import Mathlib.Data.List.Basic

namespace TowerSafe.Library

open List
open Option (map_eq_some_iff map_none map_some some.inj)

/-- A trie with search trees of siblings. -/
inductive SearchTrie (Key Data : Type) where
  | leaf
  | node (key : Key) (data : Data) (left right child : SearchTrie Key Data)
  deriving DecidableEq

namespace SearchTrie

variable {Key Data State : Type}

def data? : SearchTrie Key Data → Option Data
  | leaf => none
  | node _ data _ _ _ => some data

def child : SearchTrie Key Data → SearchTrie Key Data
  | leaf => leaf
  | node _ _ _ _ child => child

def keys : SearchTrie Key Data → List Key
  | leaf => []
  | node key _ left right _ => key :: (keys left ++ keys right)

/-! ### Operations -/

section Operations

variable (cmp : Key → Key → Ordering)

/-- The sibling with a key, or a leaf. -/
def find : SearchTrie Key Data → Key → SearchTrie Key Data
  | leaf, _ => leaf
  | node key data left right child, searched =>
      match cmp key searched with
      | .eq => node key data left right child
      | .lt => find left searched
      | .gt => find right searched

/-- The data at a path. -/
def lookup : List Key → SearchTrie Key Data → Option Data
  | [], _ => none
  | [key], trie => (trie.find cmp key).data?
  | key :: second :: rest, trie => lookup (second :: rest) (trie.find cmp key).child

/-- Change the data and the children of the sibling with a key. -/
def alter (change : Data → SearchTrie Key Data → Data × SearchTrie Key Data) :
    SearchTrie Key Data → Key → SearchTrie Key Data
  | leaf, _ => leaf
  | node key data left right child, searched =>
      match cmp key searched with
      | .eq => node key (change data child).1 left right (change data child).2
      | .lt => node key data (alter change left searched) right child
      | .gt => node key data left (alter change right searched) child

/-- Change the data at a path. -/
def alterAt (change : Data → Data) : List Key → SearchTrie Key Data → SearchTrie Key Data
  | [], trie => trie
  | [key], trie => trie.alter cmp (fun data child => (change data, child)) key
  | key :: second :: rest, trie =>
      trie.alter cmp (fun data child => (data, alterAt change (second :: rest) child)) key

/-- Add a sibling with a key if there is none, as long as it can be allocated. -/
def addKey (allocate : State → Key → Option State) (empty : Data) :
    SearchTrie Key Data → Key → State → Option (SearchTrie Key Data × State)
  | leaf, searched, state =>
      (allocate state searched).map fun next => (node searched empty leaf leaf leaf, next)
  | node key data left right child, searched, state =>
      match cmp key searched with
      | .eq => some (node key data left right child, state)
      | .lt =>
          (addKey allocate empty left searched state).map fun added =>
            (node key data added.1 right child, added.2)
      | .gt =>
          (addKey allocate empty right searched state).map fun added =>
            (node key data left added.1 child, added.2)

/-- Add the nodes of a path, as far as they can be allocated, and tell whether all could. -/
def addPath (allocate : State → Key → Option State) (empty : Data) :
    List Key → SearchTrie Key Data → State → (SearchTrie Key Data × State) × Bool
  | [], trie, state => ((trie, state), true)
  | key :: rest, trie, state =>
      match addKey cmp allocate empty trie key state with
      | none => ((trie, state), false)
      | some (added, next) =>
          let below := addPath allocate empty rest (added.find cmp key).child next
          ((added.alter cmp (fun data _ => (data, below.1.1)) key, below.1.2), below.2)

/-- The siblings are search trees, at every node. -/
def Sorted : SearchTrie Key Data → Prop
  | leaf => True
  | node key _ left right child =>
      (∀ other ∈ keys left, cmp key other = .lt) ∧ (∀ other ∈ keys right, cmp key other = .gt) ∧
        Sorted left ∧ Sorted right ∧ Sorted child

end Operations

theorem node_ne_leaf {key : Key} {data : Data} {left right child : SearchTrie Key Data} :
    node key data left right child ≠ leaf := by
  rintro ⟨⟩

theorem Sorted.single {cmp : Key → Key → Ordering} {key : Key} {data : Data}
    {child : SearchTrie Key Data} (sorted : child.Sorted cmp) :
    (node key data leaf leaf child).Sorted cmp :=
  ⟨forall_mem_nil _, forall_mem_nil _, trivial, trivial, sorted⟩

/-- A node of a tree of siblings, with what is below it in that tree. -/
inductive Below : SearchTrie Key Data → SearchTrie Key Data → Prop
  | refl (trie : SearchTrie Key Data) : Below trie trie
  | left {trie : SearchTrie Key Data} {key : Key} {data : Data}
      {left right child : SearchTrie Key Data} (below : Below left trie) :
      Below (node key data left right child) trie
  | right {trie : SearchTrie Key Data} {key : Key} {data : Data}
      {left right child : SearchTrie Key Data} (below : Below right trie) :
      Below (node key data left right child) trie

/-! ### Rules -/

section Rules

variable {cmp : Key → Key → Ordering} {allocate : State → Key → Option State} {empty : Data}
  {trie other : SearchTrie Key Data} {key searched : Key}

@[simp] theorem child_leaf : (leaf : SearchTrie Key Data).child = leaf := rfl

theorem data?_eq_none : trie.data? = none ↔ trie = leaf := by
  cases trie <;> simp [data?]

@[simp] theorem lookup_leaf (path : List Key) :
    (leaf : SearchTrie Key Data).lookup cmp path = none := by
  induction path with
  | nil => rfl
  | cons key rest hypothesis =>
    cases rest with
    | nil => rfl
    | cons second rest => exact hypothesis

@[simp] theorem alterAt_leaf (change : Data → Data) (path : List Key) :
    (leaf : SearchTrie Key Data).alterAt cmp change path = leaf := by
  match path with
  | [] => rfl
  | [_] => rfl
  | _ :: _ :: _ => rfl

theorem lookup_cons {rest : List Key} (more : rest ≠ []) :
    trie.lookup cmp (key :: rest) = (trie.find cmp key).child.lookup cmp rest := by
  cases rest with
  | nil => exact absurd rfl more
  | cons second rest => rfl

theorem Below.trans {last : SearchTrie Key Data} (first : Below trie other)
    (second : Below other last) : Below trie last := by
  induction first with
  | refl => exact second
  | left _ hypothesis => exact .left (hypothesis second)
  | right _ hypothesis => exact .right (hypothesis second)

theorem below_find : Below trie (trie.find cmp searched) ∨ trie.find cmp searched = leaf := by
  induction trie with
  | leaf => exact .inr rfl
  | node key data left right child leftHypothesis rightHypothesis =>
    rw [find]
    split
    · exact .inl (.refl _)
    · exact leftHypothesis.imp .left id
    · exact rightHypothesis.imp .right id

theorem Below.keys_subset (below : Below trie other) : ∀ one ∈ other.keys, one ∈ trie.keys := by
  induction below with
  | refl => exact fun _ member => member
  | left _ hypothesis =>
    exact fun one member => mem_cons_of_mem _ (mem_append_left _ (hypothesis one member))
  | right _ hypothesis =>
    exact fun one member => mem_cons_of_mem _ (mem_append_right _ (hypothesis one member))

section

variable (sorted : trie.Sorted cmp)
include sorted

theorem Sorted.below (below : Below trie other) : other.Sorted cmp := by
  induction below with
  | refl => exact sorted
  | left _ hypothesis => exact hypothesis sorted.2.2.1
  | right _ hypothesis => exact hypothesis sorted.2.2.2.1

theorem Sorted.child : trie.child.Sorted cmp := by
  cases trie with
  | leaf => trivial
  | node => exact sorted.2.2.2.2

theorem Sorted.find : (trie.find cmp key).Sorted cmp := by
  rcases @below_find Key Data cmp trie key with below | none
  · exact sorted.below below
  · rw [none]
    trivial

theorem Sorted.find_below (below : Below trie other)
    (member : searched ∈ other.keys) : trie.find cmp searched = other.find cmp searched := by
  induction below with
  | refl => rfl
  | left below hypothesis =>
    have less := sorted.1 searched (below.keys_subset searched member)
    rw [SearchTrie.find, less]
    exact hypothesis sorted.2.2.1 member
  | right below hypothesis =>
    have greater := sorted.2.1 searched (below.keys_subset searched member)
    rw [SearchTrie.find, greater]
    exact hypothesis sorted.2.2.2.1 member

end

@[simp] theorem keys_alter {change : Data → SearchTrie Key Data → Data × SearchTrie Key Data} :
    (trie.alter cmp change searched).keys = trie.keys := by
  induction trie with
  | leaf => rfl
  | node key data left right child leftHypothesis rightHypothesis =>
    rw [alter]
    split
    · rfl
    · rw [keys, leftHypothesis, keys]
    · rw [keys, rightHypothesis, keys]

theorem Sorted.alter {change : Data → SearchTrie Key Data → Data × SearchTrie Key Data}
    (sorted : trie.Sorted cmp)
    (children : ∀ data child, child.Sorted cmp → (change data child).2.Sorted cmp) :
    (trie.alter cmp change searched).Sorted cmp := by
  induction trie with
  | leaf => trivial
  | node key data left right child leftHypothesis rightHypothesis =>
    obtain ⟨less, greater, leftSorted, rightSorted, childSorted⟩ := sorted
    rw [SearchTrie.alter]
    split
    · exact ⟨less, greater, leftSorted, rightSorted, children data child childSorted⟩
    · exact ⟨by rwa [keys_alter], greater, leftHypothesis leftSorted, rightSorted, childSorted⟩
    · exact ⟨less, by rwa [keys_alter], leftSorted, rightHypothesis rightSorted, childSorted⟩

theorem Sorted.alterAt {change : Data → Data} {path : List Key} (sorted : trie.Sorted cmp) :
    (trie.alterAt cmp change path).Sorted cmp := by
  induction path generalizing trie with
  | nil => exact sorted
  | cons key rest hypothesis =>
    cases rest with
    | nil => exact sorted.alter fun _ _ childSorted => childSorted
    | cons second rest => exact sorted.alter fun _ _ childSorted => hypothesis childSorted

theorem keys_addKey {added : SearchTrie Key Data} {state next : State}
    (adds : addKey cmp allocate empty trie searched state = some (added, next)) :
    ∀ one ∈ added.keys, one ∈ trie.keys ∨ one = searched := by
  induction trie generalizing added next with
  | leaf =>
    obtain ⟨_, -, same⟩ := map_eq_some_iff.mp adds
    obtain ⟨rfl, -⟩ := Prod.ext_iff.mp same
    exact fun one member => .inr (mem_singleton.mp member)
  | node key data left right child leftHypothesis rightHypothesis =>
    rw [addKey] at adds
    split at adds
    · obtain ⟨rfl, -⟩ := Prod.ext_iff.mp (some.inj adds)
      exact fun one member => .inl member
    · obtain ⟨⟨left', _⟩, below, same⟩ := map_eq_some_iff.mp adds
      obtain ⟨rfl, -⟩ := Prod.ext_iff.mp same
      simp only [keys, mem_cons, mem_append]
      grind
    · obtain ⟨⟨right', _⟩, below, same⟩ := map_eq_some_iff.mp adds
      obtain ⟨rfl, -⟩ := Prod.ext_iff.mp same
      simp only [keys, mem_cons, mem_append]
      grind

theorem Sorted.addKey {added : SearchTrie Key Data} {state next : State} (sorted : trie.Sorted cmp)
    (adds : addKey cmp allocate empty trie searched state = some (added, next)) :
    added.Sorted cmp := by
  induction trie generalizing added next with
  | leaf =>
    obtain ⟨_, -, same⟩ := map_eq_some_iff.mp adds
    obtain ⟨rfl, -⟩ := Prod.ext_iff.mp same
    exact .single trivial
  | node key data left right child leftHypothesis rightHypothesis =>
    obtain ⟨less, greater, leftSorted, rightSorted, childSorted⟩ := sorted
    rw [SearchTrie.addKey] at adds
    split at adds
    · obtain ⟨rfl, -⟩ := Prod.ext_iff.mp (some.inj adds)
      exact ⟨less, greater, leftSorted, rightSorted, childSorted⟩
    · rename_i below
      obtain ⟨⟨left', _⟩, added, same⟩ := map_eq_some_iff.mp adds
      obtain ⟨rfl, -⟩ := Prod.ext_iff.mp same
      refine ⟨fun one member => ?_, greater, leftHypothesis leftSorted added, rightSorted,
        childSorted⟩
      rcases keys_addKey added one member with old | rfl
      · exact less one old
      · exact below
    · rename_i above
      obtain ⟨⟨right', _⟩, added, same⟩ := map_eq_some_iff.mp adds
      obtain ⟨rfl, -⟩ := Prod.ext_iff.mp same
      refine ⟨less, fun one member => ?_, leftSorted, rightHypothesis rightSorted added,
        childSorted⟩
      rcases keys_addKey added one member with old | rfl
      · exact greater one old
      · exact above

theorem Sorted.addPath {path : List Key} {state : State} (sorted : trie.Sorted cmp) :
    (addPath cmp allocate empty path trie state).1.1.Sorted cmp := by
  induction path generalizing trie state with
  | nil => exact sorted
  | cons key rest hypothesis =>
    rw [SearchTrie.addPath]
    split
    · exact sorted
    · rename_i added next adds
      have addedSorted := sorted.addKey adds
      exact addedSorted.alter fun _ _ _ => hypothesis addedSorted.find.child

theorem addKey_state {holds : State → Prop} {added : SearchTrie Key Data} {state next : State}
    (preserved : ∀ state key next, allocate state key = some next → holds state → holds next)
    (initial : holds state)
    (adds : addKey cmp allocate empty trie searched state = some (added, next)) : holds next := by
  induction trie generalizing added next with
  | leaf =>
    obtain ⟨_, allocated, same⟩ := map_eq_some_iff.mp adds
    obtain ⟨-, rfl⟩ := Prod.ext_iff.mp same
    exact preserved _ _ _ allocated initial
  | node key data left right child leftHypothesis rightHypothesis =>
    rw [addKey] at adds
    split at adds
    · obtain ⟨-, rfl⟩ := Prod.ext_iff.mp (some.inj adds)
      exact initial
    · obtain ⟨⟨_, _⟩, below, same⟩ := map_eq_some_iff.mp adds
      obtain ⟨-, rfl⟩ := Prod.ext_iff.mp same
      exact leftHypothesis below
    · obtain ⟨⟨_, _⟩, below, same⟩ := map_eq_some_iff.mp adds
      obtain ⟨-, rfl⟩ := Prod.ext_iff.mp same
      exact rightHypothesis below

theorem addPath_state {holds : State → Prop} {path : List Key} {state : State}
    (preserved : ∀ state key next, allocate state key = some next → holds state → holds next)
    (initial : holds state) : holds (addPath cmp allocate empty path trie state).1.2 := by
  induction path generalizing trie state with
  | nil => exact initial
  | cons key rest hypothesis =>
    rw [addPath]
    split
    · exact initial
    · exact hypothesis (addKey_state preserved initial ‹_›)

end Rules

section Lawful

variable {cmp : Key → Key → Ordering}
    (lawful : ∀ first second, cmp first second = .eq ↔ first = second)
  {allocate : State → Key → Option State} {empty : Data} {trie other : SearchTrie Key Data}
  {key searched : Key}

include lawful

theorem key_of_find {data : Data} {left right child : SearchTrie Key Data}
    (found : trie.find cmp searched = node key data left right child) : key = searched := by
  induction trie with
  | leaf => exact absurd found nofun
  | node one _ _ _ _ leftHypothesis rightHypothesis =>
    rw [find] at found
    split at found
    · rename_i equal
      obtain ⟨rfl, -⟩ := node.inj found
      exact (lawful _ _).mp equal
    · exact leftHypothesis found
    · exact rightHypothesis found

/-- What is found is below where it is searched, and has the key. -/
theorem below_of_find {data : Data} {left right child : SearchTrie Key Data}
    (found : trie.find cmp searched = node key data left right child) :
    key = searched ∧ Below trie (node key data left right child) := by
  have reached := @below_find _ _ cmp trie searched
  rw [found] at reached
  exact ⟨key_of_find lawful found, reached.resolve_right node_ne_leaf⟩

section

variable (sorted : trie.Sorted cmp) {data : Data} {left right child : SearchTrie Key Data}
  (below : Below trie (node key data left right child))
include sorted below

theorem Sorted.find_key : trie.find cmp key = node key data left right child := by
  rw [sorted.find_below below mem_cons_self, SearchTrie.find, (lawful key key).mpr rfl]

theorem Sorted.lookup_key : trie.lookup cmp [key] = some data := by
  rw [lookup, sorted.find_key lawful below]
  rfl

theorem Sorted.lookup_below {path : List Key} (holds : child.lookup cmp path = some empty) :
    trie.lookup cmp (key :: path) = some empty := by
  cases path with
  | nil => cases holds
  | cons second path => rwa [lookup, sorted.find_key lawful below]

end

omit lawful in
theorem find_alter_self (change : Data → SearchTrie Key Data → Data × SearchTrie Key Data) :
    ((trie.alter cmp change key).find cmp key).data? =
        (trie.find cmp key).data?.map (fun data => (change data (trie.find cmp key).child).1) ∧
      ∀ data, (trie.find cmp key).data? = some data →
        ((trie.alter cmp change key).find cmp key).child =
          (change data (trie.find cmp key).child).2 := by
  induction trie with
  | leaf => exact ⟨rfl, nofun⟩
  | node one data left right child leftHypothesis rightHypothesis =>
    rw [alter]
    cases order : cmp one key with
    | eq =>
      simp only [find, order, data?, SearchTrie.child, map_some, Option.some.injEq]
      exact ⟨trivial, fun _ same => same ▸ rfl⟩
    | lt => simpa only [find, order] using leftHypothesis
    | gt => simpa only [find, order] using rightHypothesis

theorem find_alter_ne (change : Data → SearchTrie Key Data → Data × SearchTrie Key Data)
    (different : searched ≠ key) :
    ((trie.alter cmp change key).find cmp searched).data? = (trie.find cmp searched).data? ∧
      ((trie.alter cmp change key).find cmp searched).child = (trie.find cmp searched).child := by
  induction trie with
  | leaf => exact ⟨rfl, rfl⟩
  | node one data left right child leftHypothesis rightHypothesis =>
    have apart : cmp one key = .eq → cmp one searched ≠ .eq := by
      intro first second
      exact different (((lawful _ _).mp second).symm.trans ((lawful _ _).mp first))
    rw [alter]
    cases order : cmp one key with
    | eq =>
      have apart := apart order
      simp only [find]
      cases other : cmp one searched with
      | eq => exact absurd other apart
      | lt => exact ⟨rfl, rfl⟩
      | gt => exact ⟨rfl, rfl⟩
    | lt =>
      simp only [find]
      cases cmp one searched with
      | eq => exact ⟨rfl, rfl⟩
      | lt => exact leftHypothesis
      | gt => exact ⟨rfl, rfl⟩
    | gt =>
      simp only [find]
      cases cmp one searched with
      | eq => exact ⟨rfl, rfl⟩
      | lt => exact ⟨rfl, rfl⟩
      | gt => exact rightHypothesis

theorem find_addKey_self {added : SearchTrie Key Data} {state next : State}
    (adds : addKey cmp allocate empty trie key state = some (added, next)) :
    (added.find cmp key).data? = some ((trie.find cmp key).data?.getD empty) ∧
      (added.find cmp key).child = (trie.find cmp key).child := by
  induction trie generalizing added next with
  | leaf =>
    obtain ⟨_, -, same⟩ := map_eq_some_iff.mp adds
    obtain ⟨rfl, -⟩ := Prod.ext_iff.mp same
    have self : cmp key key = .eq := (lawful key key).mpr rfl
    simp [find, self, data?, SearchTrie.child]
  | node one data left right child leftHypothesis rightHypothesis =>
    rw [addKey] at adds
    cases order : cmp one key with
    | eq =>
      rw [order] at adds
      obtain ⟨rfl, -⟩ := Prod.ext_iff.mp (some.inj adds)
      simp [find, order, data?]
    | lt =>
      rw [order] at adds
      obtain ⟨⟨left', _⟩, added, same⟩ := map_eq_some_iff.mp adds
      obtain ⟨rfl, -⟩ := Prod.ext_iff.mp same
      simpa only [find, order] using leftHypothesis added
    | gt =>
      rw [order] at adds
      obtain ⟨⟨right', _⟩, added, same⟩ := map_eq_some_iff.mp adds
      obtain ⟨rfl, -⟩ := Prod.ext_iff.mp same
      simpa only [find, order] using rightHypothesis added

theorem find_addKey_ne {added : SearchTrie Key Data} {state next : State}
    (adds : addKey cmp allocate empty trie key state = some (added, next))
    (different : searched ≠ key) :
    (added.find cmp searched).data? = (trie.find cmp searched).data? ∧
      (added.find cmp searched).child = (trie.find cmp searched).child := by
  induction trie generalizing added next with
  | leaf =>
    obtain ⟨_, -, same⟩ := map_eq_some_iff.mp adds
    obtain ⟨rfl, -⟩ := Prod.ext_iff.mp same
    have apart : cmp key searched ≠ .eq := fun equal => different ((lawful _ _).mp equal).symm
    simp only [find]
    cases order : cmp key searched with
    | eq => exact absurd order apart
    | lt => exact ⟨rfl, rfl⟩
    | gt => exact ⟨rfl, rfl⟩
  | node one data left right child leftHypothesis rightHypothesis =>
    rw [addKey] at adds
    cases order : cmp one key with
    | eq =>
      rw [order] at adds
      obtain ⟨rfl, -⟩ := Prod.ext_iff.mp (some.inj adds)
      exact ⟨rfl, rfl⟩
    | lt =>
      rw [order] at adds
      obtain ⟨⟨left', _⟩, added, same⟩ := map_eq_some_iff.mp adds
      obtain ⟨rfl, -⟩ := Prod.ext_iff.mp same
      simp only [find]
      cases cmp one searched with
      | eq => exact ⟨rfl, rfl⟩
      | lt => exact leftHypothesis added
      | gt => exact ⟨rfl, rfl⟩
    | gt =>
      rw [order] at adds
      obtain ⟨⟨right', _⟩, added, same⟩ := map_eq_some_iff.mp adds
      obtain ⟨rfl, -⟩ := Prod.ext_iff.mp same
      simp only [find]
      cases cmp one searched with
      | eq => exact ⟨rfl, rfl⟩
      | lt => exact ⟨rfl, rfl⟩
      | gt => exact rightHypothesis added

omit lawful in
theorem lookup_congr {rest : List Key}
    (data : (trie.find cmp key).data? = (other.find cmp key).data?)
    (child : (trie.find cmp key).child = (other.find cmp key).child) :
    trie.lookup cmp (key :: rest) = other.lookup cmp (key :: rest) := by
  cases rest with
  | nil => exact data
  | cons second rest => rw [lookup, lookup, child]

omit lawful in
theorem lookup_alterAt_self (change : Data → Data) (path : List Key) :
    (trie.alterAt cmp change path).lookup cmp path = (trie.lookup cmp path).map change := by
  induction path generalizing trie with
  | nil => rfl
  | cons key rest hypothesis =>
    cases rest with
    | nil => exact (find_alter_self _).1
    | cons second rest =>
      have altered := @find_alter_self Key Data cmp trie key
        fun data child => (data, alterAt cmp change (second :: rest) child)
      rw [alterAt, lookup, lookup, ← hypothesis]
      cases found : (trie.find cmp key).data? with
      | none =>
        have absent := altered.1
        rw [found, map_none, data?_eq_none] at absent
        rw [absent, data?_eq_none.mp found, child_leaf, alterAt_leaf, lookup_leaf]
      | some data => rw [altered.2 data found]

theorem lookup_alterAt_ne (change : Data → Data) {path searched : List Key}
    (different : searched ≠ path) :
    (trie.alterAt cmp change path).lookup cmp searched = trie.lookup cmp searched := by
  induction path generalizing trie searched with
  | nil => rfl
  | cons key rest hypothesis =>
    cases searched with
    | nil => rfl
    | cons first others =>
      by_cases same : first = key
      · subst same
        cases rest with
        | nil =>
          cases others with
          | nil => exact absurd rfl different
          | cons second others =>
            have altered := @find_alter_self Key Data cmp trie first
              fun data child => (change data, child)
            rw [alterAt, lookup, lookup]
            cases found : (trie.find cmp first).data? with
            | none =>
              have absent := altered.1
              rw [found, map_none, data?_eq_none] at absent
              rw [absent, data?_eq_none.mp found]
            | some data => rw [altered.2 data found]
        | cons second rest =>
          have altered := @find_alter_self Key Data cmp trie first
            fun data child => (data, alterAt cmp change (second :: rest) child)
          cases others with
          | nil =>
            rw [alterAt, lookup, lookup, altered.1]
            simp
          | cons third others =>
            rw [alterAt, lookup, lookup]
            have apart : third :: others ≠ second :: rest := fun equal =>
              different (congrArg (first :: ·) equal)
            cases found : (trie.find cmp first).data? with
            | none =>
              have absent := altered.1
              rw [found, map_none, data?_eq_none] at absent
              rw [absent, data?_eq_none.mp found]
            | some data => rw [altered.2 data found, hypothesis apart]
      · have kept : ∀ change, (trie.alter cmp change key).lookup cmp (first :: others) =
            trie.lookup cmp (first :: others) := fun change =>
          lookup_congr (find_alter_ne lawful change same).1 (find_alter_ne lawful change same).2
        cases rest with
        | nil => exact kept _
        | cons second rest => exact kept _

theorem lookup_addPath {path searched : List Key} {state : State} :
    (addPath cmp allocate empty path trie state).1.1.lookup cmp searched =
        trie.lookup cmp searched ∨ trie.lookup cmp searched = none ∧ searched <+: path ∧
        (addPath cmp allocate empty path trie state).1.1.lookup cmp searched = some empty := by
  induction path generalizing trie state searched with
  | nil => exact .inl rfl
  | cons key rest hypothesis =>
    rw [addPath]
    split
    · exact .inl rfl
    rename_i added next adds
    cases searched with
    | nil => exact .inl rfl
    | cons first others =>
      by_cases same : first = key
      · subst same
        obtain ⟨data, child⟩ := find_addKey_self lawful adds
        have altered := @find_alter_self Key Data cmp added first fun data _ =>
          (data, (addPath cmp allocate empty rest (added.find cmp first).child next).1.1)
        cases others with
        | nil =>
          rw [lookup, lookup, altered.1, data]
          cases (trie.find cmp first).data? with
          | none => exact .inr ⟨rfl, by simp, rfl⟩
          | some data => exact .inl rfl
        | cons second others =>
          rw [lookup, lookup, altered.2 _ data, ← child]
          rcases @hypothesis (added.find cmp first).child (second :: others) next with
            kept | ⟨none, inside, made⟩
          · exact .inl kept
          · exact .inr ⟨none, cons_prefix_cons.mpr ⟨rfl, inside⟩, made⟩
      · refine .inl ?_
        rw [lookup_congr (find_alter_ne lawful _ same).1 (find_alter_ne lawful _ same).2,
          lookup_congr (find_addKey_ne lawful adds same).1 (find_addKey_ne lawful adds same).2]

end Lawful

end SearchTrie

end TowerSafe.Library
