/-
This file embeds the subscription table of the broadcast service: `AddTopic`, `Subscribe`,
`ModifyConsumer` and `Unsubscribe` by any number of tasks, each call as its critical sections.
A topic has one relation and a relation has no two equal consumers, as long as what a call has
looked for is still missing when it inserts, and a modified consumer is not equal to another one.

The feature is there from the start, as `BCE_CreateInstance` leaves it.
-/

import Mathlib.Data.List.Basic
import Mathlib.Data.List.Nodup
import Mathlib.Logic.Function.Basic
import TowerSafe.Library.Transition

namespace TowerSafe.PubSub

open Library List

/-! ### The table -/

abbrev Topic := BitVec 32

/-- `Relation`, with the consumers of its list of callbacks. -/
structure Relation (Consumer : Type) where
  topic : Topic
  callbacks : List Consumer

/-- A relation by its place in the order in which they were added: a relation is never taken out of
the table, so this is as good as a pointer. -/
abbrev RelationPtr := Nat

section Table

variable {Consumer : Type}

/-- `GetRelation`. The table holds the relation that was added last at the end, where the list of
the code has it first. -/
def getRelation (relations : List (Relation Consumer)) (topic : Topic) : Option RelationPtr :=
  (relations.reverse.findIdx? fun relation => relation.topic = topic).map
    fun place => relations.length - 1 - place

def callbacksOf (relations : List (Relation Consumer)) (relation : RelationPtr) :
    List Consumer :=
  (relations[relation]?.map Relation.callbacks).getD []

/-- Change the callbacks of a relation. -/
def modifyCallbacks (relations : List (Relation Consumer)) (relation : RelationPtr)
    (change : List Consumer → List Consumer) : List (Relation Consumer) :=
  relations.modify relation fun one => { one with callbacks := change one.callbacks }

/-- The loop of `ModifyConsumer`: the first consumer that is found is replaced. -/
def replaceFirst (found : Consumer → Bool) (newConsumer : Consumer) :
    List Consumer → List Consumer
  | [] => []
  | item :: rest =>
      if found item then newConsumer :: rest else item :: replaceFirst found newConsumer rest

end Table

/-! ### The calls -/

/-- The codes that the calls return. -/
inductive Errno where
  | ecSuccess
  | ecAlreadySubscribed
  | ecFailure
  | ecInvalid
  | ecNoMemory
  deriving DecidableEq

/-- What a call returns: a code, or a consumer or `NULL`. -/
inductive Ret (Consumer : Type) where
  | errno (code : Errno)
  | consumer (older : Option Consumer)

/-- Where a task is: outside of the calls, with what the last one returned, or before the next
critical section of a call. -/
inductive Pc (Consumer : Type) where
  | user (last : Option (Ret Consumer))
  | addTopic (topic : Topic)
  | subscribe (relation : RelationPtr) (consumer : Consumer)
  | insert (relation : RelationPtr) (consumer : Consumer)
  | modifyConsumer (relation : RelationPtr) (oldConsumer newConsumer : Consumer)
  | unsubscribe (relation : RelationPtr) (consumer : Consumer)

/-- The table, and where every task is. -/
structure Feature (Consumer : Type) where
  relations : List (Relation Consumer)
  pc : Nat → Pc Consumer

/-- A step of a task: it calls, or it runs the next critical section of its call. An argument that
is `none` is `NULL`; `memory` is whether the allocation after the critical section succeeds. -/
inductive Action (Consumer : Type) where
  | addTopic (task : Nat) (topic : Option Topic) (memory : Bool)
  | subscribe (task : Nat) (topic : Option Topic) (consumer : Option Consumer)
  | modifyConsumer (task : Nat) (topic : Option Topic)
      (oldConsumer newConsumer : Option Consumer)
  | unsubscribe (task : Nat) (topic : Option Topic) (consumer : Option Consumer)
  | enter (task : Nat) (memory : Bool)

namespace Feature

variable {Consumer : Type} (equal : Consumer → Consumer → Bool) (feature : Feature Consumer)

/-- Set where a task is. -/
def setPc (task : Nat) (pc : Pc Consumer) : Feature Consumer :=
  { feature with pc := Function.update feature.pc task pc }

def leave (task : Nat) (ret : Ret Consumer) : Feature Consumer :=
  feature.setPc task (.user (some ret))

/-- `AddTopic` up to the allocation. -/
def addTopic (task : Nat) (memory : Bool) : Option Topic → Feature Consumer
  | none => feature.leave task (.errno .ecInvalid)
  | some topic =>
      match getRelation feature.relations topic with
      | some _ => feature.leave task (.errno .ecFailure)
      | none =>
          if memory then feature.setPc task (.addTopic topic)
          else feature.leave task (.errno .ecNoMemory)

/-- `Subscribe` up to the result of `GetRelation`. -/
def subscribe (task : Nat) : Option Topic → Option Consumer → Feature Consumer
  | some topic, some consumer =>
      match getRelation feature.relations topic with
      | none => feature.leave task (.errno .ecFailure)
      | some relation => feature.setPc task (.subscribe relation consumer)
  | _, _ => feature.leave task (.errno .ecInvalid)

/-- `ModifyConsumer` up to the result of `GetRelation`. -/
def modifyConsumer (task : Nat) :
    Option Topic → Option Consumer → Option Consumer → Feature Consumer
  | some topic, some oldConsumer, some newConsumer =>
      match getRelation feature.relations topic with
      | none => feature.leave task (.consumer none)
      | some relation => feature.setPc task (.modifyConsumer relation oldConsumer newConsumer)
  | _, _, _ => feature.leave task (.consumer none)

/-- `Unsubscribe` up to the result of `GetRelation`. -/
def unsubscribe (task : Nat) : Option Topic → Option Consumer → Feature Consumer
  | some topic, some consumer =>
      match getRelation feature.relations topic with
      | none => feature.leave task (.consumer none)
      | some relation => feature.setPc task (.unsubscribe relation consumer)
  | _, _ => feature.leave task (.consumer none)

/-- The next critical section of a call. -/
def enter (task : Nat) (memory : Bool) : Pc Consumer → Option (Feature Consumer)
  | .user _ => none
  | .addTopic topic =>
      some ({ feature with relations := feature.relations ++ [Relation.mk topic []] }.leave task
        (.errno .ecSuccess))
  | .subscribe relation consumer =>
      if (callbacksOf feature.relations relation).any fun item => equal item consumer then
        some (feature.leave task (.errno .ecAlreadySubscribed))
      else if memory then some (feature.setPc task (.insert relation consumer))
      else some (feature.leave task (.errno .ecNoMemory))
  | .insert relation consumer =>
      some ({ feature with
        relations := modifyCallbacks feature.relations relation (consumer :: ·) }.leave task
          (.errno .ecSuccess))
  | .modifyConsumer relation oldConsumer newConsumer =>
      some ({ feature with
        relations := modifyCallbacks feature.relations relation
          (replaceFirst (fun item => equal item oldConsumer) newConsumer) }.leave task
            (.consumer ((callbacksOf feature.relations relation).find?
              fun item => equal item oldConsumer)))
  | .unsubscribe relation consumer =>
      some ({ feature with
        relations := modifyCallbacks feature.relations relation
          (List.eraseP fun item => equal item consumer) }.leave task
            (.consumer ((callbacksOf feature.relations relation).find?
              fun item => equal item consumer)))

/-- Whether a task is outside of the calls. -/
def idle (task : Nat) : Bool :=
  match feature.pc task with
  | .user _ => true
  | _ => false

def step : Action Consumer → Option (Feature Consumer)
  | .addTopic task topic memory =>
      if feature.idle task then some (feature.addTopic task memory topic) else none
  | .subscribe task topic consumer =>
      if feature.idle task then some (feature.subscribe task topic consumer) else none
  | .modifyConsumer task topic oldConsumer newConsumer =>
      if feature.idle task then
        some (feature.modifyConsumer task topic oldConsumer newConsumer)
      else none
  | .unsubscribe task topic consumer =>
      if feature.idle task then some (feature.unsubscribe task topic consumer) else none
  | .enter task memory => feature.enter equal task memory (feature.pc task)

end Feature

/-! ### Uniqueness -/

section Uniqueness

variable {Consumer : Type} (equal : Consumer → Consumer → Bool)

def different (one other : Consumer) : Bool :=
  !equal one other && !equal other one

/-- A topic has at most one relation, and no relation lists two equal consumers. -/
structure Unique (relations : List (Relation Consumer)) : Prop where
  topics : (relations.map Relation.topic).Nodup
  consumers : ∀ relation ∈ relations,
    relation.callbacks.Pairwise fun one other => different equal one other = true

/-- What a call has looked for is still missing when it inserts: the topic has no relation, and no
consumer is equal to the one that comes in, other than the one it replaces. -/
def fresh (feature : Feature Consumer) : Action Consumer → Bool
  | .enter task _ =>
      match feature.pc task with
      | .addTopic topic => (getRelation feature.relations topic).isNone
      | .insert relation consumer =>
          (callbacksOf feature.relations relation).all fun item => different equal item consumer
      | .modifyConsumer relation oldConsumer newConsumer =>
          let callbacks := callbacksOf feature.relations relation
          callbacks.all (fun item => !equal item oldConsumer) ||
            (callbacks.eraseP fun item => equal item oldConsumer).all
              fun item => different equal item newConsumer
      | _ => true
  | _ => true

end Uniqueness

/-! ### Changes of the table -/

section Changes

variable {Consumer : Type} {equal : Consumer → Consumer → Bool}
  {relations : List (Relation Consumer)} {relation : RelationPtr}

theorem different_comm (one other : Consumer) :
    different equal one other = different equal other one := by
  rw [different, different, Bool.and_comm]

theorem getRelation_eq_none {topic : Topic} :
    getRelation relations topic = none ↔ ∀ one ∈ relations, one.topic ≠ topic := by
  simp [getRelation, List.findIdx?_eq_none_iff]

/-- Adding a topic keeps the table unique exactly when it has no relation yet. -/
theorem Unique.add_iff (unique : Unique equal relations) (topic : Topic) :
    Unique equal (relations ++ [⟨topic, []⟩]) ↔ getRelation relations topic = none := by
  rw [getRelation_eq_none]
  constructor
  · intro added one member same
    have distinct := added.topics
    rw [map_append, nodup_append] at distinct
    exact distinct.2.2 _ (mem_map_of_mem member) topic (by simp) same
  · intro missing
    refine ⟨?_, ?_⟩
    · rw [map_append, nodup_append]
      refine ⟨unique.topics, by simp, ?_⟩
      intro one member other otherMember same
      obtain ⟨old, oldMember, rfl⟩ := mem_map.mp member
      rw [map_singleton, mem_singleton] at otherMember
      exact missing old oldMember (same.trans otherMember)
    · intro one member
      rcases mem_append.mp member with old | new
      · exact unique.consumers one old
      · rw [mem_singleton.mp new]
        exact List.Pairwise.nil

theorem topics_modifyCallbacks (change : List Consumer → List Consumer) :
    (modifyCallbacks relations relation change).map Relation.topic =
      relations.map Relation.topic := by
  rw [modifyCallbacks]
  refine ext_getElem? fun place => ?_
  rw [List.getElem?_map, List.getElem?_map, List.getElem?_modify, Option.map_eq_map, Option.map_map]
  split <;> rfl

/-- Changing the callbacks of a relation keeps the table unique exactly when the new list is. -/
theorem Unique.modify_iff (unique : Unique equal relations) {change : List Consumer → List Consumer}
    (missing : (change []).Pairwise fun one other => different equal one other = true) :
    Unique equal (modifyCallbacks relations relation change) ↔
      (change (callbacksOf relations relation)).Pairwise
        fun one other => different equal one other = true := by
  have topics : ((modifyCallbacks relations relation change).map Relation.topic).Nodup := by
    rw [topics_modifyCallbacks]
    exact unique.topics
  cases found : relations[relation]? with
  | none =>
    have same : modifyCallbacks relations relation change = relations :=
      modify_eq_self (List.getElem?_eq_none_iff.mp found)
    rw [same, callbacksOf, found]
    exact iff_of_true unique missing
  | some one =>
    rw [callbacksOf, found]
    constructor
    · intro changed
      refine changed.consumers { one with callbacks := change one.callbacks } ?_
      refine mem_of_getElem? (i := relation) ?_
      rw [modifyCallbacks, List.getElem?_modify, found]
      simp
    · intro pairwise
      refine ⟨topics, fun other member => ?_⟩
      obtain ⟨place, at_⟩ := List.getElem?_of_mem member
      rw [modifyCallbacks, List.getElem?_modify] at at_
      obtain ⟨old, oldAt, rfl⟩ := Option.map_eq_some_iff.mp at_
      by_cases same : relation = place
      · subst same
        rw [found, Option.some_inj] at oldAt
        subst oldAt
        rw [if_pos rfl]
        exact pairwise
      · rw [if_neg same]
        exact unique.consumers old (mem_of_getElem? oldAt)

theorem Unique.callbacksOf (unique : Unique equal relations) :
    (callbacksOf relations relation).Pairwise
      fun one other => different equal one other = true := by
  rw [PubSub.callbacksOf]
  cases found : relations[relation]? with
  | none => exact List.Pairwise.nil
  | some one => exact unique.consumers one (mem_of_getElem? found)

theorem replaceFirst_perm {found : Consumer → Bool} {newConsumer : Consumer}
    {callbacks : List Consumer} (some_ : callbacks.any found = true) :
    (replaceFirst found newConsumer callbacks).Perm (newConsumer :: callbacks.eraseP found) := by
  induction callbacks with
  | nil => exact absurd some_ Bool.false_ne_true
  | cons item rest hypothesis =>
    rw [replaceFirst]
    by_cases here : found item = true
    · rw [if_pos here, eraseP_cons_of_pos here]
    rw [if_neg here, eraseP_cons_of_neg here]
    rw [any_cons, Bool.or_eq_true] at some_
    exact ((hypothesis (some_.resolve_left here)).cons item).trans (List.Perm.swap _ _ _)

theorem replaceFirst_of_all {found : Consumer → Bool} {newConsumer : Consumer}
    {callbacks : List Consumer} (none_ : ∀ item ∈ callbacks, found item = false) :
    replaceFirst found newConsumer callbacks = callbacks := by
  induction callbacks with
  | nil => rfl
  | cons item rest hypothesis =>
    rw [replaceFirst, none_ item mem_cons_self, if_neg Bool.false_ne_true,
      hypothesis fun one member => none_ one (mem_cons_of_mem _ member)]

/-- A consumer can come into a list without two equal ones exactly when it is different from all. -/
theorem pairwise_cons_iff {consumer : Consumer} {callbacks : List Consumer}
    (pairwise : callbacks.Pairwise fun one other => different equal one other = true) :
    (consumer :: callbacks).Pairwise (fun one other => different equal one other = true) ↔
      callbacks.all (fun item => different equal item consumer) = true := by
  rw [pairwise_cons, all_eq_true]
  simp only [different_comm consumer]
  exact ⟨And.left, fun all => ⟨all, pairwise⟩⟩

/-- The same for a consumer that replaces another one. -/
theorem pairwise_replaceFirst_iff {oldConsumer newConsumer : Consumer}
    {callbacks : List Consumer}
    (pairwise : callbacks.Pairwise fun one other => different equal one other = true) :
    (replaceFirst (fun item => equal item oldConsumer) newConsumer callbacks).Pairwise
        (fun one other => different equal one other = true) ↔
      (callbacks.all (fun item => !equal item oldConsumer) ||
        (callbacks.eraseP fun item => equal item oldConsumer).all
          fun item => different equal item newConsumer) = true := by
  by_cases some_ : callbacks.any (fun item => equal item oldConsumer) = true
  · have replaced := @replaceFirst_perm _ _ newConsumer _ some_
    have noneOf : callbacks.all (fun item => !equal item oldConsumer) = false := by
      rw [← not_any_eq_all_not, some_]
      rfl
    rw [replaced.pairwise_iff (by
        intro one other apart
        rw [different_comm]
        exact apart), noneOf]
    exact pairwise_cons_iff (pairwise.sublist (eraseP_sublist ..))
  · have noneOf : callbacks.all (fun item => !equal item oldConsumer) = true := by
      rw [← not_any_eq_all_not, eq_false_of_ne_true some_]
      rfl
    rw [replaceFirst_of_all (by simpa using noneOf), noneOf]
    exact iff_of_true pairwise rfl

end Changes

/-! ### Runs -/

namespace Feature

variable {Consumer : Type} {equal : Consumer → Consumer → Bool} {feature next : Feature Consumer}
  {action : Action Consumer}

@[simp]
theorem relations_leave (task : Nat) (ret : Ret Consumer) :
    (feature.leave task ret).relations = feature.relations := rfl

@[simp]
theorem relations_setPc (task : Nat) (pc : Pc Consumer) :
    (feature.setPc task pc).relations = feature.relations := rfl

theorem relations_addTopic (task : Nat) (memory : Bool) (topic : Option Topic) :
    (feature.addTopic task memory topic).relations = feature.relations := by
  cases topic with
  | none => rfl
  | some topic =>
    rw [addTopic]
    cases getRelation feature.relations topic <;> cases memory <;> rfl

theorem relations_subscribe (task : Nat) (topic : Option Topic) (consumer : Option Consumer) :
    (feature.subscribe task topic consumer).relations = feature.relations := by
  cases topic <;> cases consumer <;> try rfl
  rw [subscribe]
  cases getRelation feature.relations _ <;> rfl

theorem relations_modifyConsumer (task : Nat) (topic : Option Topic)
    (oldConsumer newConsumer : Option Consumer) :
    (feature.modifyConsumer task topic oldConsumer newConsumer).relations = feature.relations := by
  cases topic <;> cases oldConsumer <;> cases newConsumer <;> try rfl
  rw [modifyConsumer]
  cases getRelation feature.relations _ <;> rfl

theorem relations_unsubscribe (task : Nat) (topic : Option Topic) (consumer : Option Consumer) :
    (feature.unsubscribe task topic consumer).relations = feature.relations := by
  cases topic <;> cases consumer <;> try rfl
  rw [unsubscribe]
  cases getRelation feature.relations _ <;> rfl

/-- A critical section keeps the table unique exactly when what it inserts is fresh. -/
theorem enter_unique_iff {task : Nat} {memory : Bool} (unique : Unique equal feature.relations)
    (taken : feature.enter equal task memory (feature.pc task) = some next) :
    Unique equal next.relations ↔ fresh equal feature (.enter task memory) = true := by
  rw [fresh]
  cases pc : feature.pc task with
  | user last =>
    rw [pc] at taken
    exact absurd taken (Option.some_ne_none _).symm
  | addTopic topic =>
    rw [pc, enter, Option.some_inj] at taken
    rw [← taken, relations_leave, unique.add_iff, Option.isNone_iff_eq_none]
  | subscribe relation consumer =>
    rw [pc, enter] at taken
    have same : next.relations = feature.relations := by
      split at taken
      · rw [← Option.some_inj.mp taken, relations_leave]
      · split at taken
        · rw [← Option.some_inj.mp taken, relations_setPc]
        · rw [← Option.some_inj.mp taken, relations_leave]
    rw [same]
    exact iff_of_true unique rfl
  | insert relation consumer =>
    rw [pc, enter, Option.some_inj] at taken
    rw [← taken, relations_leave, unique.modify_iff (pairwise_singleton _ _)]
    exact pairwise_cons_iff unique.callbacksOf
  | modifyConsumer relation oldConsumer newConsumer =>
    rw [pc, enter, Option.some_inj] at taken
    rw [← taken, relations_leave, unique.modify_iff List.Pairwise.nil]
    exact pairwise_replaceFirst_iff unique.callbacksOf
  | unsubscribe relation consumer =>
    rw [pc, enter, Option.some_inj] at taken
    rw [← taken, relations_leave, unique.modify_iff List.Pairwise.nil]
    exact iff_of_true (unique.callbacksOf.sublist (eraseP_sublist ..)) rfl

/-- A step keeps the table unique exactly when what it inserts is fresh. -/
theorem step_unique_iff (unique : Unique equal feature.relations)
    (taken : feature.step equal action = some next) :
    Unique equal next.relations ↔ fresh equal feature action = true := by
  have unchanged (same : next.relations = feature.relations) : Unique equal next.relations ↔
      true = true := by
    rw [same]
    exact iff_of_true unique rfl
  cases action with
  | addTopic task topic memory =>
    obtain ⟨-, result⟩ := Option.ite_none_right_eq_some.mp taken
    rw [Option.some_inj] at result
    subst result
    exact unchanged (relations_addTopic _ _ _)
  | subscribe task topic consumer =>
    obtain ⟨-, result⟩ := Option.ite_none_right_eq_some.mp taken
    rw [Option.some_inj] at result
    subst result
    exact unchanged (relations_subscribe _ _ _)
  | modifyConsumer task topic oldConsumer newConsumer =>
    obtain ⟨-, result⟩ := Option.ite_none_right_eq_some.mp taken
    rw [Option.some_inj] at result
    subst result
    exact unchanged (relations_modifyConsumer _ _ _ _)
  | unsubscribe task topic consumer =>
    obtain ⟨-, result⟩ := Option.ite_none_right_eq_some.mp taken
    rw [Option.some_inj] at result
    subst result
    exact unchanged (relations_unsubscribe _ _ _)
  | enter task memory => exact enter_unique_iff unique taken

end Feature

section Results

variable {Consumer : Type} {equal : Consumer → Consumer → Bool}

def Initial (feature : Feature Consumer) : Prop :=
  feature.relations = [] ∧ ∀ task, feature.idle task = true

/-- The table is unique in every run in which what is inserted is fresh, and the next step of such a
run keeps it so only if what it inserts is fresh too. -/
theorem unique_of_reachable {feature : Feature Consumer} (reached : Reachable (Feature.step equal)
      (fun feature action => fresh equal feature action = true) Initial feature) :
    Unique equal feature.relations ∧
      ∀ action next, feature.step equal action = some next →
        (Unique equal next.relations ↔ fresh equal feature action = true) := by
  have unique : Unique equal feature.relations := by
    refine @Reachable.invariant _ _ _ _ _ feature (fun feature => Unique equal feature.relations)
      (fun feature initial => ?_) (fun _ _ _ _ unique meets taken =>
        (Feature.step_unique_iff unique taken).mpr meets) reached
    rw [initial.1]
    exact ⟨List.Pairwise.nil, List.forall_mem_nil _⟩
  exact ⟨unique, fun _ _ taken => Feature.step_unique_iff unique taken⟩

end Results

/-! ### Runs of three tasks -/

def newFeature : Feature Nat := ⟨[], fun _ => .user none⟩

theorem initial_newFeature : Initial newFeature := ⟨rfl, fun _ => rfl⟩

/-- Two tasks subscribe while a third one adds a topic; a consumer is modified and goes. -/
def tidyRun : List (Action Nat) :=
  [.addTopic 0 (some 7) true, .enter 0 true, .subscribe 1 (some 7) (some 4),
    .addTopic 0 (some 9) true, .enter 1 true, .subscribe 2 (some 7) (some 5), .enter 2 true,
    .enter 1 true, .enter 0 true, .enter 2 true, .modifyConsumer 1 (some 7) (some 4) (some 6),
    .enter 1 true, .unsubscribe 0 (some 7) (some 5), .enter 0 true]

theorem unique_of_reachable_sample : ∃ feature,
    execute (Feature.step BEq.beq) (fresh BEq.beq) newFeature tidyRun = some feature ∧
      Unique BEq.beq feature.relations := by
  have runs : (execute (Feature.step BEq.beq) (fresh BEq.beq) newFeature tidyRun).isSome =
      true := by decide
  obtain ⟨feature, result⟩ := Option.isSome_iff_exists.mp runs
  exact ⟨feature, result, (unique_of_reachable
    (.of_execute (fun _ _ meets => meets) _ (.start initial_newFeature) result)).1⟩

/-- The table after a run of any steps. -/
def tableAfter (actions : List (Action Nat)) : Option (List (Topic × List Nat)) :=
  (execute (Feature.step BEq.beq) (fun _ _ => true) newFeature actions).map
    fun feature => feature.relations.map fun relation => (relation.topic, relation.callbacks)

theorem reachable_of_tableAfter {actions : List (Action Nat)} {table : List (Topic × List Nat)}
    (result : tableAfter actions = some table) :
    ∃ feature, Reachable (Feature.step BEq.beq) (fun _ _ => True) Initial feature ∧
      feature.relations = table.map fun relation => ⟨relation.1, relation.2⟩ := by
  obtain ⟨feature, ran, rfl⟩ := Option.map_eq_some_iff.mp result
  refine ⟨feature, .of_execute (fun _ _ _ => trivial) _ (.start initial_newFeature) ran, ?_⟩
  rw [map_map]
  exact (map_id _).symm

/-- Two tasks look for a topic before either of them adds it. -/
def addTwice : List (Action Nat) :=
  [.addTopic 0 (some 7) true, .addTopic 1 (some 7) true, .enter 0 true, .enter 1 true]

/-- Two tasks look for a consumer before either of them inserts it. -/
def subscribeTwice : List (Action Nat) :=
  [.addTopic 0 (some 7) true, .enter 0 true, .subscribe 0 (some 7) (some 4),
    .subscribe 1 (some 7) (some 4), .enter 0 true, .enter 1 true, .enter 0 true, .enter 1 true]

/-- A single task replaces a consumer by one that is subscribed. -/
def modifyToOther : List (Action Nat) :=
  [.addTopic 0 (some 7) true, .enter 0 true, .subscribe 0 (some 7) (some 4), .enter 0 true,
    .enter 0 true, .subscribe 0 (some 7) (some 5), .enter 0 true, .enter 0 true,
    .modifyConsumer 0 (some 7) (some 5) (some 4), .enter 0 true]

/-- A topic comes to have two relations, and a relation to list the same consumer twice. -/
theorem duplicates_reachable :
    (∃ feature : Feature Nat, Reachable (Feature.step BEq.beq) (fun _ _ => True) Initial feature ∧
      ¬(feature.relations.map Relation.topic).Nodup) ∧
    ∀ actions ∈ [subscribeTwice, modifyToOther], ∃ feature : Feature Nat,
      tableAfter actions = some [(7, [4, 4])] ∧
        Reachable (Feature.step BEq.beq) (fun _ _ => True) Initial feature ∧
          ¬Unique BEq.beq feature.relations := by
  have added : tableAfter addTwice = some [(7, []), (7, [])] := by decide
  have subscribed : ∀ actions ∈ [subscribeTwice, modifyToOther],
      tableAfter actions = some [(7, [4, 4])] := by decide
  refine ⟨?_, fun actions member => ?_⟩
  · obtain ⟨feature, reached, table⟩ := reachable_of_tableAfter added
    refine ⟨feature, reached, ?_⟩
    rw [table]
    decide
  · obtain ⟨feature, reached, table⟩ := reachable_of_tableAfter (subscribed actions member)
    refine ⟨feature, subscribed actions member, reached, fun unique => ?_⟩
    have pairwise := unique.consumers ⟨7, [4, 4]⟩ (by rw [table]; exact List.mem_singleton_self _)
    exact absurd pairwise (by decide)

end TowerSafe.PubSub
