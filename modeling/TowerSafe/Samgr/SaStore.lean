/-
This file embeds `sa_store.c`: the table of the handles of processes, sorted by pid, and the list of
services with their features. Both refine maps to what was saved last, in every run in which nothing
is saved again in another way and the features of a service are saved with one handle.
-/

import Mathlib.Algebra.Order.BigOperators.Group.List
import Mathlib.Data.List.Nodup
import Mathlib.Data.Int.Order.Basic
import TowerSafe.Library.SortedTable
import TowerSafe.Library.Transition

namespace TowerSafe.SaStore

open Library SortedTable
open Option (elim_some isSome_none isSome_some map_eq_some_iff map_some some_inj some_ne_none)
open List

/-! ### The store -/

/-- A string, without the terminator. -/
abbrev Name := List (BitVec 8)

def maxNameLen : Nat := 16

def maxSaNum : Int := 300

def growStep : Int := 4

/-- `INVALID_INDEX` as a handle. -/
def invalidIndex : BitVec 32 := 0xFFFFFFFF

structure SvcIdentity where
  handle : BitVec 32
  token : BitVec 32
  cookie : Nat
  deriving DecidableEq

structure PidHandle where
  pid : Int
  uid : Nat
  handle : BitVec 32
  cookie : Nat
  deadId : BitVec 32
  deriving DecidableEq

structure FeatureNode where
  name : Name
  isDefault : Bool
  token : BitVec 32
  deriving DecidableEq

/-- A `ListNode`, with the features of its `ServiceInfo` from the head on. -/
structure ServiceInfo where
  name : Name
  handle : BitVec 32
  cookie : Nat
  features : List FeatureNode
  deriving DecidableEq

/-- `SAStore`, with its services from the root on. `mapSize` is an `int16`. -/
structure SAStore where
  saSize : Int
  services : List ServiceInfo
  mapSize : Int
  mapTop : Nat
  maps : Nat → PidHandle

inductive ErrorCode where
  | success
  | invalid
  | noSpace
  | noMemory
  deriving DecidableEq

def init (maps : Nat → PidHandle) : SAStore :=
  ⟨0, [], 0, 0, maps⟩

/-- Whether `strncmp` finds two names equal. -/
def sameName (one other : Name) : Bool :=
  one.take maxNameLen = other.take maxNameLen

/-- Whether `strcpy_s` has room for a name. -/
def fits (name : Name) : Bool :=
  name.length < maxNameLen

def findServiceByName (services : List ServiceInfo) (service : Name) : Option ServiceInfo :=
  services.find? fun node => sameName node.name service

def findFeatureByName (features : List FeatureNode) (feature : Option Name) :
    Option FeatureNode :=
  features.find? fun node =>
    match feature with
    | none => node.isDefault
    | some feature => sameName node.name feature

/-- A feature is put before the others of the service that was found. -/
def addFeature (service : Name) (node : FeatureNode) : List ServiceInfo → List ServiceInfo
  | [] => []
  | first :: rest =>
      if sameName first.name service then { first with features := node :: first.features } :: rest
      else first :: addFeature service node rest

/-- The feature that `SASTORA_Save` makes. -/
def newFeature (feature : Option Name) (identity : SvcIdentity) : FeatureNode :=
  ⟨feature.getD [], feature.isNone, identity.token⟩

/-- What memory there is for a feature and for a service. -/
structure Memory where
  feature : Bool
  service : Bool
  deriving DecidableEq

namespace SAStore

variable (store : SAStore)

def save (service : Name) (feature : Option Name) (identity : SvcIdentity) (memory : Memory) :
    SAStore × ErrorCode :=
  let curNode := findServiceByName store.services service
  if (curNode.bind fun node => findFeatureByName node.features feature).isSome then
    (store, .success)
  else if maxSaNum ≤ store.saSize then (store, .noSpace)
  else if memory.feature = false then (store, .noMemory)
  else if feature.all fits = false then (store, .invalid)
  else if curNode.isSome then
    ({ store with
      services := addFeature service (newFeature feature identity) store.services
      saSize := store.saSize + 1 }, .success)
  else if memory.service = false then (store, .noMemory)
  else if fits service = false then (store, .invalid)
  else
    ({ store with
      services :=
        ⟨service, identity.handle, identity.cookie, [newFeature feature identity]⟩ ::
          store.services
      saSize := store.saSize + 1 }, .success)

def findHandleByPid (callingPid : Int) : Option (Nat × PidHandle) :=
  (bisect (fun mid => (store.maps mid).pid = callingPid)
    (fun mid => (store.maps mid).pid < callingPid) store.mapTop 0 (store.mapTop - 1)).map
      fun mid => (mid, store.maps mid)

def findHandleByUidPid (callingUid : Nat) (callingPid : Int) : Option (Nat × PidHandle) :=
  (bisect (fun mid =>
      decide ((store.maps mid).pid = callingPid) && decide ((store.maps mid).uid = callingUid))
    (fun mid => (store.maps mid).pid < callingPid) store.mapTop 0 (store.mapTop - 1)).map
      fun mid => (mid, store.maps mid)

/-- The size of the table when there is room for another entry. Sizes that come out negative are
asked of `malloc` in vain. -/
def roomForHandle (memory : Bool) : Option Int :=
  if store.mapSize ≤ store.mapTop then
    if memory = true ∧ 0 < store.mapSize + growStep then
      some ((store.mapSize + growStep).bmod (2 ^ 16))
    else none
  else some store.mapSize

def saveHandleByPid (handle : PidHandle) (memory : Bool) : SAStore × ErrorCode :=
  let found := store.findHandleByPid handle.pid
  if (found.elim invalidIndex fun saved => saved.2.handle) = handle.handle then (store, .success)
  else
    match found with
    | some (index, _) =>
        ({ store with maps := Function.update store.maps index handle }, .success)
    | none =>
        match store.roomForHandle memory with
        | none => (store, .noMemory)
        | some mapSize =>
            ({ store with
              mapSize := mapSize
              maps := insert PidHandle.pid store.maps store.mapTop handle
              mapTop := store.mapTop + 1 }, .success)

def find (service : Name) (feature : Option Name) : SvcIdentity :=
  match findServiceByName store.services service with
  | none => ⟨invalidIndex, invalidIndex, invalidIndex.toNat⟩
  | some curNode =>
      ⟨curNode.handle,
        (findFeatureByName curNode.features feature).elim invalidIndex FeatureNode.token,
        curNode.cookie⟩

end SAStore

/-- `FreeTreeNode`: what is left of the number of features. -/
def freeTreeNode : List FeatureNode → Int → Int
  | [], saSize => saSize
  | _ :: rest, saSize => freeTreeNode rest (saSize - 1)

/-- `SASTORA_ClearServiceByHandle`: the services that stay, and the number of features. -/
def clearServiceByHandle (handle : BitVec 32) : List ServiceInfo → Int → List ServiceInfo × Int
  | [], saSize => ([], saSize)
  | node :: rest, saSize =>
      if node.handle = handle then
        clearServiceByHandle handle rest (freeTreeNode node.features saSize)
      else
        let cleared := clearServiceByHandle handle rest saSize
        (node :: cleared.1, cleared.2)

def SAStore.clearByPid (store : SAStore) (pid : Int) : SAStore × ErrorCode :=
  match store.findHandleByPid pid with
  | none => (store, .invalid)
  | some (index, pidHandle) =>
      let cleared := clearServiceByHandle pidHandle.handle store.services store.saSize
      ({ store with
        services := cleared.1
        saSize := cleared.2
        mapTop := store.mapTop - 1
        maps :=
          if store.mapTop ≤ index + 1 then store.maps
          else remove store.maps store.mapTop index }, .success)

/-! ### What is saved -/

/-- The handles that were saved for processes, and the identities that were saved for features, each
the last one. -/
structure Registry where
  handles : Int → Option PidHandle
  identities : Name → Option Name → Option SvcIdentity

namespace Registry

variable (registry : Registry)

def save (service : Name) (feature : Option Name) (identity : SvcIdentity) : Registry :=
  { registry with
    identities := fun other otherFeature =>
      if other = service ∧ otherFeature = feature then some identity
      else registry.identities other otherFeature }

def saveHandle (handle : PidHandle) : Registry :=
  { registry with handles := Function.update registry.handles handle.pid (some handle) }

/-- The process goes, with all that was saved with its handle. -/
def clear (pid : Int) : Registry :=
  match registry.handles pid with
  | none => registry
  | some pidHandle =>
      ⟨Function.update registry.handles pid none, fun service feature =>
        (registry.identities service feature).filter fun identity =>
          identity.handle ≠ pidHandle.handle⟩

end Registry

/-- A store, and what was saved. -/
structure System where
  store : SAStore
  registry : Registry

inductive Action where
  | save (service : Name) (feature : Option Name) (identity : SvcIdentity) (memory : Memory)
  | saveHandleByPid (handle : PidHandle) (memory : Bool)
  | clearByPid (pid : Int)

/-- A step of the store; what is saved counts when the call succeeds. -/
def System.step (system : System) : Action → Option System
  | .save service feature identity memory =>
      let saved := system.store.save service feature identity memory
      some ⟨saved.1, if saved.2 = .success then system.registry.save service feature identity
        else system.registry⟩
  | .saveHandleByPid handle memory =>
      let saved := system.store.saveHandleByPid handle memory
      some ⟨saved.1, if saved.2 = .success then system.registry.saveHandle handle
        else system.registry⟩
  | .clearByPid pid => some ⟨(system.store.clearByPid pid).1, system.registry.clear pid⟩

def FeatureNode.key (node : FeatureNode) : Option Name :=
  if node.isDefault then none else some node.name

/-- The services and features of a store. -/
def SAStore.keys (store : SAStore) : List (Name × Option Name) :=
  store.services.flatMap fun node => node.features.map fun feature => (node.name, feature.key)

/-- The store refines the map to what was saved last. -/
structure Refines (store : SAStore) (registry : Registry) : Prop where
  sorted : Sorted PidHandle.pid store.maps store.mapTop
  mapTop : store.mapTop < 2 ^ 15
  byPid : ∀ pid, (store.findHandleByPid pid).map Prod.snd = registry.handles pid
  byUidPid : ∀ uid pid, (store.findHandleByUidPid uid pid).map Prod.snd =
    (registry.handles pid).filter fun handle => handle.uid = uid
  once : store.keys.Nodup
  find : ∀ service feature identity, registry.identities service feature = some identity →
    store.find service feature = identity
  size : store.saSize = store.keys.length
  cleared : ∀ pid handle, registry.handles pid = some handle →
    (∀ node ∈ (store.clearByPid pid).1.services, node.handle ≠ handle.handle) ∧
      ∀ service feature identity, registry.identities service feature = some identity →
        identity.handle = handle.handle →
          findServiceByName (store.clearByPid pid).1.services service = none

/-- What it takes: a feature that is found is saved with the identity it has, another one of a
service that is found with its handle and cookie, and a default feature not so that it hides one
with an empty name; a handle that is saved again for a process is saved as it is; and the first
handle of a process is a valid one. -/
def careful (system : System) : Action → Bool
  | .save service feature identity memory =>
      match findServiceByName system.store.services service with
      | none => true
      | some node =>
          let same :=
            decide (node.handle = identity.handle) && decide (node.cookie = identity.cookie)
          match findFeatureByName node.features feature with
          | some found => same && decide (found.token = identity.token)
          | none =>
              decide (maxSaNum ≤ system.store.saSize) || !memory.feature || !feature.all fits ||
                (same && (feature.isSome || (findFeatureByName node.features (some [])).all
                  fun hidden => hidden.token = identity.token))
  | .saveHandleByPid handle _ =>
      match system.store.findHandleByPid handle.pid with
      | none => decide (handle.handle ≠ invalidIndex)
      | some saved => decide (saved.2.handle ≠ handle.handle) || decide (saved.2 = handle)
  | .clearByPid _ => true

/-! ### The table of handles -/

/-- The table has one entry for each process that a handle was saved for. -/
structure Table (store : SAStore) (handles : Int → Option PidHandle) : Prop where
  sorted : Sorted PidHandle.pid store.maps store.mapTop
  handles : ∀ pid handle, handles pid = some handle ↔
    Holds store.maps store.mapTop handle ∧ handle.pid = pid
  aligned : 4 ∣ store.mapSize
  mapSize : -(2 ^ 15) ≤ store.mapSize ∧ store.mapSize < 2 ^ 15
  mapTop : store.mapTop ≤ store.mapSize ∨ store.mapSize < 0 ∧ store.mapTop ≤ 2 ^ 15 - 3

namespace Table

variable {store : SAStore} {handles : Int → Option PidHandle} {pid : Int} {handle : PidHandle}

section

variable (table : Table store handles)
include table

theorem services (saSize : Int) (services : List ServiceInfo) :
    Table { store with saSize := saSize, services := services } handles :=
  ⟨table.sorted, table.handles, table.aligned, table.mapSize, table.mapTop⟩

theorem mapTop_lt : store.mapTop < 2 ^ 15 := by
  have top := table.mapTop
  have size := table.mapSize.2
  omega

theorem bisect_eq (test : PidHandle → Bool) (pid : Int) :
    (bisect (fun mid => decide ((store.maps mid).pid = pid) && test (store.maps mid))
      (fun mid => (store.maps mid).pid < pid) store.mapTop 0 (store.mapTop - 1)).map store.maps =
        (handles pid).filter test := by
  cases result : bisect (fun mid => decide ((store.maps mid).pid = pid) && test (store.maps mid))
    (fun mid => (store.maps mid).pid < pid) store.mapTop 0 (store.mapTop - 1) with
  | some place =>
    obtain ⟨hit, _, inside⟩ := bisect_some (Int.le_refl 0) result
    obtain ⟨same, met⟩ := Bool.and_eq_true_iff.mp hit
    have held := (table.handles pid (store.maps place)).mpr
      ⟨⟨place, by omega, rfl⟩, of_decide_eq_true same⟩
    rw [held, Option.filter_some, if_pos met]
    rfl
  | none =>
    refine (Option.eq_none_iff_forall_ne_some.mpr fun handle kept => ?_).symm
    obtain ⟨held, met⟩ := Option.filter_eq_some_iff.mp kept
    obtain ⟨⟨place, inside, rfl⟩, same⟩ := (table.handles pid handle).mp held
    rw [table.sorted.bisect_eq_some inside same met] at result
    cases result

theorem findHandleByUidPid (uid : Nat) (pid : Int) :
    (store.findHandleByUidPid uid pid).map Prod.snd =
      (handles pid).filter fun handle => handle.uid = uid := by
  rw [SAStore.findHandleByUidPid, Option.map_map]
  exact table.bisect_eq (fun handle => handle.uid = uid) pid

theorem findHandleByPid (pid : Int) : (store.findHandleByPid pid).map Prod.snd = handles pid := by
  have found := table.bisect_eq (fun _ => true) pid
  have all : (handles pid).filter (fun _ => true) = handles pid := by
    cases handles pid with
    | none => rfl
    | some handle => rfl
  simp only [Bool.and_true] at found
  rw [all] at found
  rw [SAStore.findHandleByPid, Option.map_map]
  exact found

theorem of_findHandleByPid {index : Nat}
    (found : store.findHandleByPid pid = some (index, handle)) :
    index < store.mapTop ∧ store.maps index = handle ∧ handle.pid = pid ∧
      handles pid = some handle := by
  have held := table.findHandleByPid pid
  rw [found] at held
  obtain ⟨place, result, equal⟩ := map_eq_some_iff.mp found
  obtain ⟨rfl, rfl⟩ := Prod.mk.inj equal
  obtain ⟨hit, _, inside⟩ := bisect_some (Int.le_refl 0) result
  exact ⟨by omega, rfl, of_decide_eq_true hit, held.symm⟩

theorem handles_saveHandle {maps : Nat → PidHandle} {mapTop : Nat}
    (holds : ∀ other, Holds maps mapTop other ↔
      other = handle ∨ Holds store.maps store.mapTop other ∧ other.pid ≠ handle.pid)
    (pid : Int) (other : PidHandle) :
    Function.update handles handle.pid (some handle) pid = some other ↔
      Holds maps mapTop other ∧ other.pid = pid := by
  rw [holds]
  by_cases same : pid = handle.pid
  · subst same
    rw [Function.update_self, some_inj]
    constructor
    · rintro rfl
      exact ⟨Or.inl rfl, rfl⟩
    · rintro ⟨rfl | ⟨_, different⟩, equal⟩
      · rfl
      · exact absurd equal different
  · rw [Function.update_of_ne same, table.handles]
    constructor
    · rintro ⟨held, rfl⟩
      exact ⟨Or.inr ⟨held, same⟩, rfl⟩
    · rintro ⟨rfl | ⟨held, _⟩, rfl⟩
      · exact absurd rfl same
      · exact ⟨held, rfl⟩

theorem replace {index : Nat} {saved : PidHandle}
    (found : store.findHandleByPid handle.pid = some (index, saved)) :
    Table { store with maps := Function.update store.maps index handle }
      (Function.update handles handle.pid (some handle)) := by
  obtain ⟨inside, place, same, _⟩ := table.of_findHandleByPid found
  obtain ⟨sorted, holds⟩ := table.sorted.update inside
    (same.symm.trans (congrArg PidHandle.pid place).symm)
  exact ⟨sorted, table.handles_saveHandle holds, table.aligned, table.mapSize, table.mapTop⟩

theorem insert {mapSize : Int} {memory : Bool}
    (missing : store.findHandleByPid handle.pid = none)
    (room : store.roomForHandle memory = some mapSize) :
    Table { store with
        mapSize := mapSize
        maps := SortedTable.insert PidHandle.pid store.maps store.mapTop handle
        mapTop := store.mapTop + 1 }
      (Function.update handles handle.pid (some handle)) := by
  have unknown : handles handle.pid = none := by
    rw [← table.findHandleByPid, missing]
    rfl
  have new (other : PidHandle) (held : Holds store.maps store.mapTop other) :
      other.pid ≠ handle.pid := by
    intro same
    rw [(table.handles handle.pid other).mpr ⟨held, same⟩] at unknown
    cases unknown
  obtain ⟨sorted, holds⟩ := @Sorted.insert _ _ _ PidHandle.pid store.maps store.mapTop handle
    table.sorted fun place inside => new _ ⟨place, inside, rfl⟩
  have size : 4 ∣ mapSize ∧ (-(2 ^ 15) ≤ mapSize ∧ mapSize < 2 ^ 15) ∧
      ((store.mapTop + 1 : Nat) ≤ mapSize ∨ mapSize < 0 ∧ store.mapTop + 1 ≤ 2 ^ 15 - 3) := by
    have aligned := table.aligned
    have before := table.mapSize
    have top := table.mapTop
    rw [SAStore.roomForHandle] at room
    split at room
    · obtain ⟨⟨_, positive⟩, result⟩ := Option.ite_none_right_eq_some.mp room
      have grown := some_inj.mp result
      unfold growStep at positive grown
      rw [Int.bmod_def] at grown
      split at grown
      · omega
      · omega
    · obtain rfl := some_inj.mp room
      omega
  refine ⟨sorted, table.handles_saveHandle fun other => (holds other).trans ?_, size.1, size.2.1,
    size.2.2⟩
  exact or_congr_right ⟨fun held => ⟨held, new other held⟩, And.left⟩

theorem remove {index : Nat}
    (found : store.findHandleByPid pid = some (index, handle)) :
    Table { store with
        mapTop := store.mapTop - 1
        maps := if store.mapTop ≤ index + 1 then store.maps
          else SortedTable.remove store.maps store.mapTop index }
      (Function.update handles pid none) := by
  obtain ⟨inside, place, same, _⟩ := table.of_findHandleByPid found
  obtain ⟨sorted, holds⟩ := table.sorted.remove inside
  have slots (other : Nat) (below : other < store.mapTop - 1) :
      (if store.mapTop ≤ index + 1 then store.maps
        else SortedTable.remove store.maps store.mapTop index) other =
          SortedTable.remove store.maps store.mapTop index other := by
    split
    · rw [SortedTable.remove, if_neg (by omega)]
    · rfl
  obtain ⟨sorted, equal⟩ := sorted.congr slots
  refine ⟨sorted, fun other entry => ?_, table.aligned, table.mapSize, ?_⟩
  · rw [equal, holds, place, same]
    by_cases here : other = pid
    · subst here
      rw [Function.update_self]
      exact iff_of_false (some_ne_none entry).symm fun held => held.1.2 held.2
    rw [Function.update_of_ne here, table.handles]
    constructor
    · rintro ⟨held, rfl⟩
      exact ⟨⟨held, here⟩, rfl⟩
    · rintro ⟨⟨held, _⟩, rfl⟩
      exact ⟨held, rfl⟩
  · have top := table.mapTop
    dsimp only
    omega

end

end Table

/-! ### The list of services -/

/-- Stored names are short, so that they are found by themselves only. -/
theorem sameName_iff {one other : Name} (short : fits one = true) :
    sameName one other = true ↔ one = other := by
  have length : one.length < maxNameLen := of_decide_eq_true short
  rw [sameName, decide_eq_true_iff, take_of_length_le (Nat.le_of_lt length)]
  constructor
  · intro same
    have bound := congrArg List.length same
    rw [length_take] at bound
    rw [same, take_of_length_le (by omega)]
  · rintro rfl
    exact (take_of_length_le (Nat.le_of_lt length)).symm

/-- The services have different names, the features of a service have different keys, and all names
are short. -/
structure Listed (services : List ServiceInfo) : Prop where
  names : (services.map ServiceInfo.name).Nodup
  features : ∀ node ∈ services, (node.features.map FeatureNode.key).Nodup
  service : ∀ node ∈ services, fits node.name = true
  feature : ∀ node ∈ services, ∀ feature ∈ node.features, fits feature.name = true

/-- The features that were saved are in the list, with their identities. -/
def Finds (services : List ServiceInfo)
    (identities : Name → Option Name → Option SvcIdentity) : Prop :=
  ∀ service feature identity, identities service feature = some identity →
    ∃ node ∈ services, node.name = service ∧ node.handle = identity.handle ∧
      node.cookie = identity.cookie ∧
        (findFeatureByName node.features feature).map FeatureNode.token = some identity.token

namespace Listed

variable {services : List ServiceInfo} {node : ServiceInfo} {service : Name}

theorem findServiceByName_eq_none (listed : Listed services) :
    findServiceByName services service = none ↔ ∀ node ∈ services, node.name ≠ service := by
  rw [findServiceByName, List.find?_eq_none]
  exact forall₂_congr fun node member =>
    not_congr (sameName_iff (listed.service node member))

theorem findServiceByName_eq_some (listed : Listed services) :
    findServiceByName services service = some node ↔ node ∈ services ∧ node.name = service := by
  constructor
  · intro found
    have member := mem_of_find?_eq_some found
    have same : sameName node.name service = true := by
      simpa using List.find?_some found
    exact ⟨member, (sameName_iff (listed.service node member)).mp same⟩
  · rintro ⟨member, rfl⟩
    cases found : findServiceByName services node.name with
    | none => exact absurd rfl (listed.findServiceByName_eq_none.mp found node member)
    | some other =>
      have other_ := mem_of_find?_eq_some found
      have same : sameName other.name node.name = true := by
        simpa using List.find?_some found
      rw [inj_on_of_nodup_map listed.names other_ member
        ((sameName_iff (listed.service other other_)).mp same)]

theorem tail (listed : Listed (node :: services)) : Listed services :=
  ⟨(nodup_cons.mp listed.names).2, fun one member =>
    listed.features one (mem_cons_of_mem _ member), fun one member =>
    listed.service one (mem_cons_of_mem _ member), fun one member =>
    listed.feature one (mem_cons_of_mem _ member)⟩

end Listed

/-- A service gets another feature if it has the name. -/
def ServiceInfo.push (service : Name) (feature : FeatureNode) (node : ServiceInfo) : ServiceInfo :=
  if node.name = service then { node with features := feature :: node.features } else node

theorem ServiceInfo.push_name (service : Name) (feature : FeatureNode) (node : ServiceInfo) :
    (node.push service feature).name = node.name := by
  rw [ServiceInfo.push]
  split
  · rfl
  · rfl

theorem ServiceInfo.push_of_ne {service : Name} {node : ServiceInfo} (other : node.name ≠ service)
    (feature : FeatureNode) : node.push service feature = node :=
  if_neg other

section Features

variable {services : List ServiceInfo} {node : ServiceInfo} {service : Name}
  {feature : Option Name} {identity : SvcIdentity}
  {identities : Name → Option Name → Option SvcIdentity}

theorem addFeature_eq_map (listed : Listed services) (service : Name) (feature : FeatureNode) :
    addFeature service feature services = services.map (ServiceInfo.push service feature) := by
  induction services with
  | nil => rfl
  | cons first rest hypothesis =>
    rw [addFeature, map_cons]
    by_cases same : first.name = service
    · rw [if_pos ((sameName_iff (listed.service first mem_cons_self)).mpr same),
        ServiceInfo.push, if_pos same]
      have others (other : ServiceInfo) (member : other ∈ rest) :
          other.push service feature = other := by
        refine ServiceInfo.push_of_ne (fun equal => ?_) feature
        refine (nodup_cons.mp listed.names).1 ?_
        rw [same, ← equal]
        exact mem_map_of_mem member
      rw [map_congr_left others, map_id']
    · rw [if_neg fun found => same ((sameName_iff (listed.service first mem_cons_self)).mp found),
        ServiceInfo.push_of_ne same, hypothesis listed.tail]

theorem newFeature_key : (newFeature feature identity).key = feature := by
  cases feature with
  | none => rfl
  | some name => rfl

theorem findFeatureByName_newFeature (short : feature.all fits = true) (features : List FeatureNode)
    (other : Option Name) : findFeatureByName (newFeature feature identity :: features) other =
      if other = feature ∨ feature = none ∧ other = some [] then some (newFeature feature identity)
      else findFeatureByName features other := by
  have found : (match other with
      | none => (newFeature feature identity).isDefault
      | some name => sameName (newFeature feature identity).name name) = true ↔
        other = feature ∨ feature = none ∧ other = some [] := by
    cases feature with
    | none =>
      cases other with
      | none => simp [newFeature]
      | some name =>
        have empty := @sameName_iff [] name rfl
        simp [newFeature, empty, eq_comm]
    | some own =>
      cases other with
      | none => simp [newFeature]
      | some name =>
        have equal := @sameName_iff own name short
        simp [newFeature, equal, eq_comm]
  rw [findFeatureByName, List.find?_cons]
  by_cases met : other = feature ∨ feature = none ∧ other = some []
  · rw [if_pos met, found.mpr met]
  · rw [if_neg met, eq_false_of_ne_true fun hit => met (found.mp hit)]
    rfl

theorem key_ne_of_not_found (missing : findFeatureByName node.features feature = none) :
    ∀ other ∈ node.features, other.key ≠ feature := by
  rintro other member rfl
  have apart := List.find?_eq_none.mp missing other member
  rw [FeatureNode.key] at apart
  by_cases default : other.isDefault = true
  · rw [if_pos default] at apart
    exact apart default
  · rw [if_neg default] at apart
    exact apart (decide_eq_true rfl)

theorem Listed.addFeature (listed : Listed services) (member : node ∈ services)
    (short : feature.all fits = true) (missing : findFeatureByName node.features feature = none) :
    Listed (addFeature node.name (newFeature feature identity) services) := by
  rw [addFeature_eq_map listed]
  have push_features (other : ServiceInfo) (other_ : other ∈ services) (one : FeatureNode)
      (one_ : one ∈ (other.push node.name (newFeature feature identity)).features) :
      one = newFeature feature identity ∨ one ∈ other.features := by
    rw [ServiceInfo.push] at one_
    split at one_
    · exact mem_cons.mp one_
    · exact Or.inr one_
  refine ⟨?_, forall_mem_map.mpr fun other other_ => ?_,
    forall_mem_map.mpr fun other other_ => ?_,
    forall_mem_map.mpr fun other other_ one one_ => ?_⟩
  · rw [map_map]
    have names := listed.names
    rwa [map_congr_left fun other _ => (ServiceInfo.push_name _ _ other).symm] at names
  · rw [ServiceInfo.push]
    split
    · next same =>
      obtain rfl := inj_on_of_nodup_map listed.names other_ member same
      rw [map_cons, newFeature_key]
      refine nodup_cons.mpr ⟨fun listed_ => ?_, listed.features other member⟩
      obtain ⟨one, one_, key⟩ := mem_map.mp listed_
      exact key_ne_of_not_found missing one one_ key
    · exact listed.features other other_
  · rw [ServiceInfo.push_name]
    exact listed.service other other_
  · rcases push_features other other_ one one_ with rfl | before
    · cases feature with
      | none => rfl
      | some name => exact short
    · exact listed.feature other other_ one before

theorem Finds.addFeature (listed : Listed services) (finds : Finds services identities)
    (member : node ∈ services) (short : feature.all fits = true)
    (handle : node.handle = identity.handle) (cookie : node.cookie = identity.cookie)
    (hidden : feature = none → ∀ found, findFeatureByName node.features (some []) = some found →
      found.token = identity.token) :
    Finds (addFeature node.name (newFeature feature identity) services)
      (fun other otherFeature => if other = node.name ∧ otherFeature = feature then some identity
        else identities other otherFeature) := by
  rw [addFeature_eq_map listed]
  have own : (node.push node.name (newFeature feature identity)) =
      { node with features := newFeature feature identity :: node.features } := if_pos rfl
  intro service otherFeature saved found
  dsimp only at found
  split at found
  · next same =>
    obtain ⟨rfl, rfl⟩ := same
    obtain rfl := some_inj.mp found
    refine ⟨_, mem_map_of_mem member, ?_⟩
    rw [own]
    refine ⟨rfl, handle, cookie, ?_⟩
    rw [findFeatureByName_newFeature short, if_pos (Or.inl rfl)]
    rfl
  · next different =>
    obtain ⟨other, other_, name, handle_, cookie_, token⟩ := finds service otherFeature saved found
    by_cases same : other.name = node.name
    · obtain rfl := inj_on_of_nodup_map listed.names other_ member same
      refine ⟨_, mem_map_of_mem member, ?_⟩
      rw [own]
      refine ⟨name, handle_, cookie_, ?_⟩
      rw [findFeatureByName_newFeature short]
      split
      · next hides =>
        have default := hides.resolve_left fun equal => different ⟨name.symm, equal⟩
        rw [default.2] at token
        obtain ⟨before, before_, token⟩ := map_eq_some_iff.mp token
        rw [← token, hidden default.1 before before_]
        rfl
      · exact token
    · refine ⟨_, mem_map_of_mem other_, ?_⟩
      rw [ServiceInfo.push_of_ne same]
      exact ⟨name, handle_, cookie_, token⟩

theorem Listed.newService (listed : Listed services) (shortService : fits service = true)
    (short : feature.all fits = true)
    (missing : findServiceByName services service = none) (identity : SvcIdentity) :
    Listed (⟨service, identity.handle, identity.cookie, [newFeature feature identity]⟩ ::
      services) := by
  refine ⟨?_, ?_, ?_, ?_⟩
  · refine nodup_cons.mpr ⟨fun member => ?_, listed.names⟩
    obtain ⟨node, node_, same⟩ := mem_map.mp member
    exact listed.findServiceByName_eq_none.mp missing node node_ same
  · exact forall_mem_cons.mpr ⟨nodup_singleton _, listed.features⟩
  · exact forall_mem_cons.mpr ⟨shortService, listed.service⟩
  · refine forall_mem_cons.mpr ⟨forall_mem_singleton.mpr ?_, listed.feature⟩
    cases feature with
    | none => rfl
    | some name => exact short

theorem Finds.newService (listed : Listed services) (finds : Finds services identities)
    (short : feature.all fits = true) (missing : findServiceByName services service = none) :
    Finds (⟨service, identity.handle, identity.cookie, [newFeature feature identity]⟩ :: services)
      (fun other otherFeature => if other = service ∧ otherFeature = feature then some identity
        else identities other otherFeature) := by
  intro other otherFeature saved found
  dsimp only at found
  split at found
  · next same =>
    obtain ⟨rfl, rfl⟩ := same
    obtain rfl := some_inj.mp found
    refine ⟨_, mem_cons_self, rfl, rfl, rfl, ?_⟩
    rw [findFeatureByName_newFeature short, if_pos (Or.inl rfl)]
    rfl
  · obtain ⟨node, member, rest⟩ := finds other otherFeature saved found
    exact ⟨node, mem_cons_of_mem _ member, rest⟩

theorem Finds.found (finds : Finds services identities) (member : node ∈ services)
    (handle : node.handle = identity.handle) (cookie : node.cookie = identity.cookie)
    (token : (findFeatureByName node.features feature).map FeatureNode.token =
      some identity.token) : Finds services (fun other otherFeature =>
      if other = node.name ∧ otherFeature = feature then some identity
        else identities other otherFeature) := by
  intro other otherFeature saved found
  dsimp only at found
  split at found
  · next same =>
    obtain ⟨rfl, rfl⟩ := same
    obtain rfl := some_inj.mp found
    exact ⟨node, member, rfl, handle, cookie, token⟩
  · exact finds other otherFeature saved found

/-! ### Clearing -/

theorem freeTreeNode_eq (features : List FeatureNode) (saSize : Int) :
    freeTreeNode features saSize = saSize - features.length := by
  induction features generalizing saSize with
  | nil => exact (Int.sub_zero saSize).symm
  | cons feature rest hypothesis =>
    rw [freeTreeNode, hypothesis, length_cons]
    omega

theorem clearServiceByHandle_eq (handle : BitVec 32) (services : List ServiceInfo) (saSize : Int) :
    (clearServiceByHandle handle services saSize).1 =
        services.filter (fun node => node.handle ≠ handle) ∧
      (clearServiceByHandle handle services saSize).2 +
          (services.map fun node => node.features.length).sum =
        saSize + ((services.filter fun node => node.handle ≠ handle).map
          fun node => node.features.length).sum := by
  induction services generalizing saSize with
  | nil => exact ⟨rfl, rfl⟩
  | cons node rest hypothesis =>
    rw [clearServiceByHandle]
    by_cases same : node.handle = handle
    · obtain ⟨left, size⟩ := hypothesis (freeTreeNode node.features saSize)
      rw [freeTreeNode_eq] at size
      rw [if_pos same, filter_cons_of_neg (by simpa using same)]
      refine ⟨left, ?_⟩
      rw [map_cons, sum_cons]
      rw [freeTreeNode_eq]
      omega
    · obtain ⟨left, size⟩ := hypothesis saSize
      rw [if_neg same, filter_cons_of_pos (by simpa using same)]
      dsimp only
      rw [left]
      refine ⟨rfl, ?_⟩
      rw [map_cons, sum_cons, map_cons, sum_cons]
      omega

theorem Listed.filter (listed : Listed services) (keep : ServiceInfo → Bool) :
    Listed (services.filter keep) :=
  ⟨listed.names.sublist (filter_sublist.map _),
    fun node member => listed.features node (mem_filter.mp member).1,
    fun node member => listed.service node (mem_filter.mp member).1,
    fun node member => listed.feature node (mem_filter.mp member).1⟩

theorem Finds.filter (finds : Finds services identities) (handle : BitVec 32) :
    Finds (services.filter fun node => node.handle ≠ handle) fun service feature =>
      (identities service feature).filter fun identity => identity.handle ≠ handle := by
  intro service feature identity found
  obtain ⟨saved, other⟩ := Option.filter_eq_some_iff.mp found
  obtain ⟨node, member, name, handle_, rest⟩ := finds service feature identity saved
  refine ⟨node, mem_filter.mpr ⟨member, ?_⟩, name, handle_, rest⟩
  rw [handle_]
  exact other

end Features

/-! ### Steps -/

/-- The table and the list are what they should be. -/
structure Sound (system : System) : Prop where
  table : Table system.store system.registry.handles
  listed : Listed system.store.services
  finds : Finds system.store.services system.registry.identities
  size : system.store.saSize =
    (system.store.services.map fun node => node.features.length).sum

section Steps

variable {system next : System} {service : Name} {feature : Option Name} {identity : SvcIdentity}

theorem sum_addFeature {services : List ServiceInfo}
    (found : (findServiceByName services service).isSome = true) (one : FeatureNode) :
    ((addFeature service one services).map fun node => node.features.length).sum =
      (services.map fun node => node.features.length).sum + 1 := by
  induction services with
  | nil => cases found
  | cons first rest hypothesis =>
    rw [findServiceByName, List.find?_cons] at found
    rw [addFeature]
    split
    · rw [map_cons, sum_cons, map_cons, sum_cons, length_cons]
      omega
    next other =>
    rw [eq_false_of_ne_true other] at found
    rw [map_cons, sum_cons, map_cons, sum_cons, hypothesis found]
    omega

theorem Sound.save (sound : Sound system) {memory : Memory}
    (careful_ : careful system (.save service feature identity memory) = true) :
    Sound ⟨(system.store.save service feature identity memory).1,
      if (system.store.save service feature identity memory).2 = .success then
        system.registry.save service feature identity else system.registry⟩ := by
  rw [careful] at careful_
  rw [SAStore.save]
  cases curNode : findServiceByName system.store.services service with
  | none =>
    rw [Option.bind_none, isSome_none, if_neg Bool.false_ne_true]
    by_cases full : maxSaNum ≤ system.store.saSize
    · rw [if_pos full]
      exact sound
    rw [if_neg full]
    by_cases none_ : memory.feature = false
    · rw [if_pos none_]
      exact sound
    rw [if_neg none_]
    by_cases long : feature.all fits = false
    · rw [if_pos long]
      exact sound
    rw [if_neg long, isSome_none, if_neg Bool.false_ne_true]
    by_cases noService : memory.service = false
    · rw [if_pos noService]
      exact sound
    rw [if_neg noService]
    by_cases longService : fits service = false
    · rw [if_pos longService]
      exact sound
    rw [if_neg longService]
    have short := eq_true_of_ne_false long
    refine ⟨sound.table.services _ _, sound.listed.newService (eq_true_of_ne_false longService)
      short curNode identity, Finds.newService sound.listed sound.finds short curNode, ?_⟩
    dsimp only
    rw [map_cons, sum_cons, sound.size, length_singleton]
    omega
  | some node =>
    obtain ⟨member, rfl⟩ := sound.listed.findServiceByName_eq_some.mp curNode
    rw [curNode] at careful_
    dsimp only at careful_
    rw [Option.bind_some]
    cases found : findFeatureByName node.features feature with
    | some old =>
      rw [found] at careful_
      obtain ⟨same, token⟩ := Bool.and_eq_true_iff.mp careful_
      obtain ⟨handle, cookie⟩ := Bool.and_eq_true_iff.mp same
      refine ⟨sound.table, sound.listed, sound.finds.found member (of_decide_eq_true handle)
        (of_decide_eq_true cookie) ?_, sound.size⟩
      rw [found, map_some, of_decide_eq_true token]
    | none =>
      rw [found] at careful_
      rw [isSome_none, if_neg Bool.false_ne_true]
      by_cases full : maxSaNum ≤ system.store.saSize
      · rw [if_pos full]
        exact sound
      rw [if_neg full]
      by_cases none_ : memory.feature = false
      · rw [if_pos none_]
        exact sound
      rw [if_neg none_]
      by_cases long : feature.all fits = false
      · rw [if_pos long]
        exact sound
      have short := eq_true_of_ne_false long
      rw [if_neg long, isSome_some, if_pos rfl]
      rw [decide_eq_false full, eq_true_of_ne_false none_, short] at careful_
      simp only [Bool.not_true, Bool.false_or, Bool.and_eq_true, decide_eq_true_eq,
        Bool.or_eq_true] at careful_
      obtain ⟨⟨handle, cookie⟩, shadow⟩ := careful_
      refine ⟨sound.table.services _ _, sound.listed.addFeature member short found,
        sound.finds.addFeature sound.listed member short handle cookie ?_, ?_⟩
      · rintro rfl hidden hidden_
        rw [hidden_] at shadow
        exact of_decide_eq_true (shadow.resolve_left Bool.false_ne_true)
      · rw [sum_addFeature (by rw [curNode]; rfl), sound.size]
        rfl

theorem Sound.saveHandleByPid (sound : Sound system) {handle : PidHandle} {memory : Bool}
    (careful_ : careful system (.saveHandleByPid handle memory) = true) :
    Sound ⟨(system.store.saveHandleByPid handle memory).1,
      if (system.store.saveHandleByPid handle memory).2 = .success then
        system.registry.saveHandle handle else system.registry⟩ := by
  rw [careful] at careful_
  rw [SAStore.saveHandleByPid]
  cases found : system.store.findHandleByPid handle.pid with
  | none =>
    rw [found] at careful_
    rw [Option.elim_none, if_neg (of_decide_eq_true careful_).symm]
    cases room : system.store.roomForHandle memory with
    | none => exact sound
    | some mapSize => exact ⟨sound.table.insert found room, sound.listed, sound.finds, sound.size⟩
  | some saved =>
    obtain ⟨index, saved⟩ := saved
    rw [found] at careful_
    rw [elim_some]
    by_cases same : saved.handle = handle.handle
    · rw [if_pos same]
      have equal := of_decide_eq_true ((Bool.or_eq_true_iff.mp careful_).resolve_left
        (by simp [same]))
      subst equal
      obtain ⟨_, _, _, held⟩ := sound.table.of_findHandleByPid found
      have kept : system.registry.saveHandle saved = system.registry := by
        rw [Registry.saveHandle, ← held, Function.update_eq_self]
      rw [kept]
      exact sound
    · rw [if_neg same]
      exact ⟨sound.table.replace found, sound.listed, sound.finds, sound.size⟩

theorem Sound.clearByPid (sound : Sound system) (pid : Int) :
    Sound ⟨(system.store.clearByPid pid).1, system.registry.clear pid⟩ := by
  rw [SAStore.clearByPid, Registry.clear]
  have held := sound.table.findHandleByPid pid
  cases found : system.store.findHandleByPid pid with
  | none =>
    rw [found] at held
    rw [← held]
    exact sound
  | some saved =>
    obtain ⟨index, pidHandle⟩ := saved
    rw [found] at held
    rw [← held]
    dsimp only [map_some]
    obtain ⟨left, size⟩ := clearServiceByHandle_eq pidHandle.handle system.store.services
      system.store.saSize
    refine ⟨(sound.table.remove found).services _ _, ?_, ?_, ?_⟩
    · rw [left]
      exact sound.listed.filter _
    · rw [left]
      exact sound.finds.filter pidHandle.handle
    · dsimp only
      rw [left]
      have before := sound.size
      omega

theorem Sound.step {action : Action} (sound : Sound system)
    (careful_ : careful system action = true) (result : system.step action = some next) :
    Sound next := by
  cases action with
  | save service feature identity memory =>
    obtain rfl := some_inj.mp result
    exact sound.save careful_
  | saveHandleByPid handle memory =>
    obtain rfl := some_inj.mp result
    exact sound.saveHandleByPid careful_
  | clearByPid pid =>
    obtain rfl := some_inj.mp result
    exact sound.clearByPid pid

end Steps

/-! ### Whole runs -/

section Runs

variable {system : System}

/-- `SASTORA_Init`, and nothing is saved. -/
def Initial (system : System) : Prop :=
  ∃ maps, system = ⟨init maps, ⟨fun _ => none, fun _ _ => none⟩⟩

theorem Initial.sound (initial : Initial system) : Sound system := by
  obtain ⟨maps, rfl⟩ := initial
  refine ⟨⟨?_, fun pid handle => ?_, Int.dvd_zero 4,
      ⟨show -(2 ^ 15 : Int) ≤ 0 by decide, show (0 : Int) < 2 ^ 15 by decide⟩,
      Or.inl (Int.le_refl 0)⟩,
    ⟨nodup_nil, forall_mem_nil _, forall_mem_nil _, forall_mem_nil _⟩, ?_, rfl⟩
  · exact fun one other _ below => absurd below (Nat.not_lt_zero other)
  · refine iff_of_false (some_ne_none handle).symm fun held => ?_
    obtain ⟨place, below, _⟩ := held.1
    exact Nat.not_lt_zero place below
  · exact fun service feature identity found => absurd found.symm (some_ne_none identity)

theorem length_keys (store : SAStore) :
    store.keys.length = (store.services.map fun node => node.features.length).sum := by
  rw [SAStore.keys, length_flatMap]
  simp only [length_map]

theorem Listed.nodup_keys {store : SAStore} (listed : Listed store.services) :
    store.keys.Nodup := by
  rw [SAStore.keys, nodup_flatMap]
  refine ⟨fun node member => ?_, ?_⟩
  · have apart : Function.Injective fun key : Option Name => (node.name, key) :=
      fun _ _ same => (Prod.mk.inj same).2
    have nodup := (listed.features node member).map apart
    rwa [map_map] at nodup
  · refine (pairwise_map.mp listed.names).imp fun {one other} different => ?_
    intro key here there
    obtain ⟨_, _, rfl⟩ := mem_map.mp here
    obtain ⟨_, _, same⟩ := mem_map.mp there
    exact different (Prod.mk.inj same).1.symm

theorem Sound.find (sound : Sound system) {service : Name} {feature : Option Name}
    {identity : SvcIdentity} (saved : system.registry.identities service feature = some identity) :
    system.store.find service feature = identity := by
  obtain ⟨node, member, name, handle, cookie, token⟩ := sound.finds service feature identity saved
  rw [SAStore.find, sound.listed.findServiceByName_eq_some.mpr ⟨member, name⟩]
  obtain ⟨found, found_, token⟩ := map_eq_some_iff.mp token
  dsimp only
  rw [found_, elim_some, handle, cookie, token]

theorem Sound.cleared (sound : Sound system) {pid : Int} {handle : PidHandle}
    (held : system.registry.handles pid = some handle) :
    (∀ node ∈ (system.store.clearByPid pid).1.services, node.handle ≠ handle.handle) ∧
      ∀ service feature identity, system.registry.identities service feature = some identity →
        identity.handle = handle.handle →
          findServiceByName (system.store.clearByPid pid).1.services service = none := by
  have services : (system.store.clearByPid pid).1.services =
      system.store.services.filter fun node => node.handle ≠ handle.handle := by
    rw [← sound.table.findHandleByPid] at held
    obtain ⟨saved, found, rfl⟩ := map_eq_some_iff.mp held
    rw [SAStore.clearByPid, found]
    exact (clearServiceByHandle_eq _ _ system.store.saSize).1
  rw [services]
  refine ⟨fun node member => of_decide_eq_true (mem_filter.mp member).2,
    fun service feature identity saved same => ?_⟩
  refine (sound.listed.filter _).findServiceByName_eq_none.mpr fun other member name => ?_
  obtain ⟨other_, apart⟩ := mem_filter.mp member
  obtain ⟨node, node_, name_, handle_, _⟩ := sound.finds service feature identity saved
  have equal := inj_on_of_nodup_map sound.listed.names other_ node_ (name.trans name_.symm)
  exact of_decide_eq_true apart (by rw [equal, handle_, same])

theorem Sound.refines (sound : Sound system) : Refines system.store system.registry :=
  ⟨sound.table.sorted, sound.table.mapTop_lt, sound.table.findHandleByPid,
    sound.table.findHandleByUidPid, sound.listed.nodup_keys,
    fun _ _ _ saved => sound.find saved, by rw [length_keys, sound.size],
    fun _ _ held => sound.cleared held⟩

/-- The store refines the map to what was saved last, in every run in which each call meets the
condition. -/
theorem refines_of_reachable
    (reached : Reachable System.step (fun system action => careful system action = true) Initial
      system) : Refines system.store system.registry := by
  have sound : Sound system :=
    @Reachable.invariant _ _ _ _ _ system Sound (fun _ initial => initial.sound)
      (fun _ _ _ _ sound careful_ result => sound.step careful_ result) reached
  exact sound.refines

end Runs

/-! ### Runs of two processes -/

def nothing : System :=
  ⟨init fun _ => ⟨0, 0, 0, 0, 0⟩, ⟨fun _ => none, fun _ _ => none⟩⟩

theorem initial_nothing : Initial nothing := ⟨_, rfl⟩

/-- Two processes save their handles, and register features; one of them goes. -/
def registerBoth : List Action :=
  [.saveHandleByPid ⟨20, 0, 7, 1, 3⟩ true, .saveHandleByPid ⟨10, 0, 8, 2, 4⟩ true,
    .save [97] none ⟨7, 100, 1⟩ ⟨true, true⟩, .save [97] (some [98]) ⟨7, 101, 1⟩ ⟨true, true⟩,
    .save [99] none ⟨8, 102, 2⟩ ⟨true, true⟩, .saveHandleByPid ⟨10, 5, 9, 2, 4⟩ true,
    .clearByPid 20]

theorem refines_of_reachable_sample : ∃ system,
    execute System.step careful nothing registerBoth = some system ∧
      system.store.keys = [([99], none)] ∧ Refines system.store system.registry := by
  have runs : (execute System.step careful nothing registerBoth).map
      (fun system => system.store.keys) = some [([99], none)] := by
    decide
  obtain ⟨system, result, keys⟩ := map_eq_some_iff.mp runs
  exact ⟨system, result, keys, refines_of_reachable
    (.of_execute (fun _ _ meets => meets) _ (.start initial_nothing) result)⟩

/-- A process saves its handle again with another uid, and a feature with another token: both calls
succeed, and the old entries are found. -/
theorem savedAgain_kept : ∃ system, execute System.step (fun _ _ => true) nothing
        [.saveHandleByPid ⟨20, 0, 7, 1, 3⟩ true, .saveHandleByPid ⟨20, 5, 7, 1, 3⟩ true,
          .save [97] none ⟨7, 100, 1⟩ ⟨true, true⟩, .save [97] none ⟨7, 101, 1⟩ ⟨true, true⟩] =
        some system ∧
      Reachable System.step (fun _ _ => True) Initial system ∧
        system.registry.handles 20 = some ⟨20, 5, 7, 1, 3⟩ ∧
          system.store.findHandleByPid 20 = some (0, ⟨20, 0, 7, 1, 3⟩) ∧
          system.registry.identities [97] none = some ⟨7, 101, 1⟩ ∧
            system.store.find [97] none = ⟨7, 100, 1⟩ ∧
              ¬Refines system.store system.registry := by
  have runs : (execute System.step (fun _ _ => true) nothing
      [.saveHandleByPid ⟨20, 0, 7, 1, 3⟩ true, .saveHandleByPid ⟨20, 5, 7, 1, 3⟩ true,
        .save [97] none ⟨7, 100, 1⟩ ⟨true, true⟩, .save [97] none ⟨7, 101, 1⟩ ⟨true, true⟩]).map
      (fun system => (system.registry.handles 20, system.store.findHandleByPid 20,
        system.registry.identities [97] none, system.store.find [97] none)) =
      some (some ⟨20, 5, 7, 1, 3⟩, some (0, ⟨20, 0, 7, 1, 3⟩), some ⟨7, 101, 1⟩, ⟨7, 100, 1⟩) := by
    decide
  obtain ⟨system, result, state⟩ := map_eq_some_iff.mp runs
  obtain ⟨handles, rest⟩ := Prod.mk.inj state
  obtain ⟨found, rest⟩ := Prod.mk.inj rest
  obtain ⟨saved, identity⟩ := Prod.mk.inj rest
  refine ⟨system, result, .of_execute (fun _ _ _ => trivial) _ (.start initial_nothing) result,
    handles, found, saved, identity, fun refines => ?_⟩
  have same := refines.find [97] none _ saved
  rw [identity] at same
  exact absurd same (by decide)

end TowerSafe.SaStore
