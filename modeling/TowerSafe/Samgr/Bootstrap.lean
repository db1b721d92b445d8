/-
This file embeds the initialization of services by `SAMGR_Bootstrap`: the list of uninitialized
services, their task pools, the requests that are put into the queues of the pools, and the tasks
that process them. Every service that was registered before a call is initialized exactly once when
the call has returned and the messages are processed, as long as the list has room for it, no
request for it is left from another call, it gets a pool, and its request finds room in the queue.

Whether memory is there and a thread can be created is left open. Services are not unregistered.
-/

import Mathlib
import TowerSafe.Library.Places
import TowerSafe.Library.Transition

namespace TowerSafe.Bootstrap

open Library Option

/-! ### Services and pools -/

/-- `TaskType`; any value that is none of the others is `NO_TASK`. -/
inductive TaskType where
  | sharedTask
  | singleTask
  | specifiedTask
  | noTask
  deriving DecidableEq

structure TaskConfig where
  level : Int
  priority : Int
  stackSize : Nat
  queueSize : Nat
  taskFlags : TaskType
  deriving DecidableEq

def priLow : Int := 9

def priButt : Int := 39

def propertyStep : Int := 8

def maxRefNum : Nat := 15

def sharedQueueSize : Nat := 25

/-- The states of a service. -/
inductive Inited where
  | svcInit
  | svcIdle
  | svcBusy
  deriving DecidableEq

abbrev ServicePtr := Nat

abbrev PoolPtr := Nat

/-- `ServiceImpl`, with the number of calls of its `Initialize`. -/
structure ServiceImpl where
  config : TaskConfig
  taskPool : Option PoolPtr
  inited : Inited
  initializeCalls : Nat
  deriving DecidableEq

/-- The exchanges in a queue: requests to initialize a service, and all others to a service. -/
inductive Exchange where
  | initRequest (service : ServicePtr)
  | other (service : ServicePtr)
  deriving DecidableEq

/-- `TaskPool`, with its queue and what its task processes. -/
structure TaskPool where
  queue : List Exchange
  queueSize : Nat
  ref : Nat
  started : Bool
  processing : Option Exchange
  deriving DecidableEq

/-- Where a task is in `SAMGR_Bootstrap`. -/
inductive Pc where
  | user
  /-- Before `AddTaskPool` of the next service; `services` is the whole list. -/
  | adding (left services : List ServicePtr)
  /-- Before `InitializeSingleService` of the next service. -/
  | initializing (left services : List ServicePtr)
  /-- Before the pools are started. -/
  | starting (services : List ServicePtr)
  deriving DecidableEq

/-- `SamgrLiteImpl`, with the pools that were created, where every task that may call
`SAMGR_Bootstrap` is, and how many services there were at the last call. -/
structure SamgrLite where
  services : List ServiceImpl
  pools : List TaskPool
  sharedPool : Int → Option PoolPtr
  pc : List Pc
  registered : Nat

namespace SamgrLite

variable (samgr : SamgrLite)

def setPc (task : Nat) (pc : Pc) : SamgrLite :=
  { samgr with pc := samgr.pc.set task pc }

def modifyService (service : ServicePtr) (change : ServiceImpl → ServiceImpl) : SamgrLite :=
  { samgr with services := samgr.services.modify service change }

def modifyPool (pool : PoolPtr) (change : TaskPool → TaskPool) : SamgrLite :=
  { samgr with pools := samgr.pools.modify pool change }

/-- `SAMGR_CreateFixedTaskPool`; `created` is whether there is memory. -/
def createFixedTaskPool (queueSize : Nat) (created : Bool) : SamgrLite × Option PoolPtr :=
  if created then
    ({ samgr with pools := samgr.pools ++ [⟨[], queueSize, 1, false, none⟩] },
      some samgr.pools.length)
  else (samgr, none)

def referenceTaskPool (pool : Option PoolPtr) : SamgrLite × Option PoolPtr :=
  match pool with
  | none => (samgr, none)
  | some pool =>
      if (samgr.pools[pool]?).any fun one => maxRefNum ≤ one.ref then (samgr, none)
      else (samgr.modifyPool pool fun one => { one with ref := one.ref + 1 }, some pool)

/-- The loop of `GetSpecifiedTaskPool`. -/
def specifiedLoop (config : TaskConfig) : List ServiceImpl → SamgrLite × Option PoolPtr
  | [] => (samgr, none)
  | impl :: rest =>
      if impl.config ≠ config then specifiedLoop config rest
      else
        match impl.taskPool with
        | none => (samgr, none)
        | some pool =>
            let referenced := samgr.referenceTaskPool (some pool)
            match referenced.2 with
            | some pool => (referenced.1, some pool)
            | none => specifiedLoop config rest

/-- The pool that the services of a range of priorities share. -/
def sharedTaskPool (pos : Int) (created : Bool) : SamgrLite × Option PoolPtr :=
  match samgr.sharedPool pos with
  | some pool => (samgr, some pool)
  | none =>
      let result := samgr.createFixedTaskPool sharedQueueSize created
      ({ result.1 with sharedPool := Function.update samgr.sharedPool pos result.2 }, result.2)

/-- The first case of `AddTaskPool`: a shared pool with too many references is left, but the service
gets it. -/
def referenceSharedPool (pos : Int) (created : Bool) : SamgrLite × Option PoolPtr :=
  let shared := samgr.sharedTaskPool pos created
  let referenced := shared.1.referenceTaskPool shared.2
  match referenced.2 with
  | some _ => (referenced.1, shared.2)
  | none =>
      ({ referenced.1 with sharedPool := Function.update referenced.1.sharedPool pos none },
        shared.2)

/-- The second case of `AddTaskPool`, which falls through to the third one. -/
def specifiedTaskPool (config : TaskConfig) (created : Bool) : SamgrLite × Option PoolPtr :=
  let result := samgr.specifiedLoop config samgr.services
  match result.2 with
  | some _ => result
  | none => result.1.createFixedTaskPool config.queueSize created

/-- The cases of `AddTaskPool`. -/
def newTaskPool (config : TaskConfig) (created : Bool) : SamgrLite × Option PoolPtr :=
  match config.taskFlags with
  | .sharedTask => samgr.referenceSharedPool (config.priority / propertyStep) created
  | .specifiedTask => samgr.specifiedTaskPool config created
  | .singleTask => samgr.createFixedTaskPool config.queueSize created
  | .noTask => (samgr, none)

/-- The configuration of a service; a priority that is out of range is the lowest. -/
def configOf (impl : ServiceImpl) : TaskConfig :=
  if impl.config.priority < priLow ∨ priButt ≤ impl.config.priority then
    { impl.config with priority := priLow }
  else impl.config

def addTaskPool (service : ServicePtr) (created : Bool) : SamgrLite :=
  match samgr.services[service]? with
  | none => samgr
  | some impl =>
      if impl.taskPool.isSome then samgr
      else
        let result := samgr.newTaskPool (configOf impl) created
        result.1.modifyService service fun one => { one with taskPool := result.2 }

def poolOf (service : ServicePtr) : Option PoolPtr :=
  (samgr.services[service]?).bind ServiceImpl.taskPool

def hasRoom (pool : PoolPtr) : Bool :=
  (samgr.pools[pool]?).any fun one => one.queue.length < one.queueSize

def queuePut (pool : PoolPtr) (exchange : Exchange) : SamgrLite :=
  if samgr.hasRoom pool then
    samgr.modifyPool pool fun one => { one with queue := one.queue ++ [exchange] }
  else samgr

def defaultInitialize (service : ServicePtr) : SamgrLite :=
  samgr.modifyService service fun one => { one with initializeCalls := one.initializeCalls + 1 }

/-- `InitializeSingleService`: the result of the send is not looked at. -/
def initializeSingleService (service : ServicePtr) : SamgrLite :=
  match samgr.poolOf service with
  | none => samgr.defaultInitialize service
  | some pool => samgr.queuePut pool (.initRequest service)

/-- Set the state of a service. -/
def setInited (service : ServicePtr) (inited : Inited) : SamgrLite :=
  samgr.modifyService service fun one => { one with inited := inited }

/-- Whether a service is in a state. -/
def isInited (service : ServicePtr) (inited : Inited) : Bool :=
  (samgr.services[service]?).any fun one => one.inited = inited

/-- What a task does before it processes an exchange: `BeginWork`. -/
def beginWork (service : ServicePtr) : SamgrLite :=
  if samgr.isInited service .svcIdle then samgr.setInited service .svcBusy else samgr

/-- What a task does after it has processed an exchange: `EndWork`. -/
def endWork (service : ServicePtr) : SamgrLite :=
  if samgr.isInited service .svcBusy then samgr.setInited service .svcIdle else samgr

/-- `SAMGR_StartTaskPool`, when it is called and the thread can be created. -/
def startTaskPool (created : Bool) (pool : TaskPool) : TaskPool :=
  { pool with started := pool.started || created }

/-- The services that `SAMGR_Bootstrap` finds. -/
def uninitialized : List ServicePtr :=
  (List.range samgr.services.length).filter fun service => samgr.isInited service .svcInit

end SamgrLite

/-! ### Runs -/

inductive Action where
  /-- `SAMGR_Bootstrap` up to its list, with those services that the list has memory for. -/
  | bootstrap (task : Nat) (kept : ServicePtr → Bool)
  /-- `AddTaskPool`; `created` is whether a pool can be created. -/
  | addTaskPool (task : Nat) (created : Bool)
  /-- `InitializeSingleService`. -/
  | initializeSingleService (task : Nat)
  /-- The end of `InitializeAllServices`, with the pools whose thread can be created. -/
  | startTaskPools (task : Nat) (created : PoolPtr → Bool)
  /-- The task of a pool gets an exchange. -/
  | receive (pool : PoolPtr)
  /-- The task of a pool is done with its exchange. -/
  | process (pool : PoolPtr)
  /-- Somebody puts another exchange for a service into the queue of its pool. -/
  | put (service : ServicePtr)
  /-- `RegisterService` of a new service. -/
  | register (config : TaskConfig)

namespace SamgrLite

variable (samgr : SamgrLite)

def step : Action → Option SamgrLite
  | .bootstrap task kept =>
      match samgr.pc[task]? with
      | some .user =>
          let services := samgr.uninitialized.filter kept
          some ({ samgr with registered := samgr.services.length }.setPc task
            (.adding services services))
      | _ => none
  | .addTaskPool task created =>
      match samgr.pc[task]? with
      | some (.adding (service :: left) services) =>
          some ((samgr.addTaskPool service created).setPc task
            (.initializing (service :: left) services))
      | some (.adding [] services) => some (samgr.setPc task (.starting services))
      | _ => none
  | .initializeSingleService task =>
      match samgr.pc[task]? with
      | some (.initializing (service :: left) services) =>
          some ((samgr.initializeSingleService service).setPc task (.adding left services))
      | _ => none
  | .startTaskPools task created =>
      match samgr.pc[task]? with
      | some (.starting services) =>
          some ({ samgr with
            pools := samgr.pools.mapIdx fun pool =>
              startTaskPool ((services.any fun service => samgr.poolOf service = some pool) &&
                created pool) }.setPc task .user)
      | _ => none
  | .receive pool =>
      match samgr.pools[pool]? with
      | some ⟨exchange :: queue, queueSize, ref, true, none⟩ =>
          let next := samgr.modifyPool pool fun _ => ⟨queue, queueSize, ref, true, some exchange⟩
          some <|
            match exchange with
            | .initRequest service => next.beginWork service
            | .other service => next.beginWork service
      | _ => none
  | .process pool =>
      match (samgr.pools[pool]?).bind TaskPool.processing with
      | none => none
      | some exchange =>
          let next := samgr.modifyPool pool fun one => { one with processing := none }
          some <|
            match exchange with
            | .initRequest service =>
                ((next.defaultInitialize service).setInited service .svcIdle).endWork service
            | .other service => next.endWork service
  | .put service =>
      (samgr.poolOf service).map fun pool => samgr.queuePut pool (.other service)
  | .register config =>
      some { samgr with services := samgr.services ++ [⟨config, none, .svcInit, 0⟩] }

end SamgrLite

/-! ### Requests that are pending -/

/-- The services whose turn has not come in `InitializeAllServices`. -/
def Pc.left : Pc → List ServicePtr
  | .adding left _ => left
  | .initializing left _ => left
  | _ => []

/-- How many requests for a service a pool holds. -/
def TaskPool.requests (service : ServicePtr) (pool : TaskPool) : Nat :=
  pool.queue.count (.initRequest service) +
    if pool.processing = some (.initRequest service) then 1 else 0

namespace SamgrLite

/-- How often a service is still to be initialized. -/
def pending (samgr : SamgrLite) (service : ServicePtr) : Nat :=
  (samgr.pc.map fun pc => pc.left.count service).sum +
    (samgr.pools.map (TaskPool.requests service)).sum

/-- All calls have returned, and all messages are processed. -/
def Settled (samgr : SamgrLite) : Prop :=
  (∀ pc ∈ samgr.pc, pc = .user) ∧ ∀ pool ∈ samgr.pools, pool.queue = [] ∧ pool.processing = none

instance (samgr : SamgrLite) : Decidable samgr.Settled :=
  inferInstanceAs (Decidable (_ ∧ _))

end SamgrLite

/-- What it takes: the list of a call has room for every service it finds, and no request for it is
pending; the service has a pool, and the queue of the pool has room for the request. -/
def careful (samgr : SamgrLite) : Action → Bool
  | .bootstrap _ kept =>
      samgr.uninitialized.all fun service => kept service && samgr.pending service == 0
  | .initializeSingleService task =>
      match samgr.pc[task]? with
      | some (.initializing (service :: _) _) => (samgr.poolOf service).any samgr.hasRoom
      | _ => true
  | _ => true

/-! ### Steps that leave the work alone -/

/-- What counts of a service: the calls of its `Initialize`, and whether it is `SVC_INIT`. -/
def ServiceImpl.core (impl : ServiceImpl) : Nat × Bool :=
  (impl.initializeCalls, impl.inited = .svcInit)

/-- Neither the requests nor what counts of the services are touched. -/
structure SameWork (samgr next : SamgrLite) : Prop where
  pc : next.pc = samgr.pc
  registered : next.registered = samgr.registered
  requests : ∀ service, (next.pools.map (TaskPool.requests service)).sum =
    (samgr.pools.map (TaskPool.requests service)).sum
  services : next.services.map ServiceImpl.core = samgr.services.map ServiceImpl.core

namespace SameWork

variable {samgr next last : SamgrLite}

theorem refl (samgr : SamgrLite) : SameWork samgr samgr := ⟨rfl, rfl, fun _ => rfl, rfl⟩

theorem trans (first : SameWork samgr next) (second : SameWork next last) : SameWork samgr last :=
  ⟨second.pc.trans first.pc, second.registered.trans first.registered,
    fun service => (second.requests service).trans (first.requests service),
    second.services.trans first.services⟩

theorem modifyService (service : ServicePtr) {change : ServiceImpl → ServiceImpl}
    (keeps : ∀ impl, samgr.services[service]? = some impl → (change impl).core = impl.core) :
    SameWork samgr (samgr.modifyService service change) := by
  refine ⟨rfl, rfl, fun _ => rfl, ?_⟩
  refine List.ext_getElem? fun place => ?_
  rw [SamgrLite.modifyService, List.getElem?_map, List.getElem?_map, List.getElem?_modify]
  cases found : samgr.services[place]? with
  | none => rfl
  | some impl =>
    by_cases same : service = place
    · subst same
      simpa using keeps impl found
    · simp [same]

theorem modifyPool (pool : PoolPtr) {change : TaskPool → TaskPool}
    (keeps : ∀ one service, samgr.pools[pool]? = some one →
      (change one).requests service = one.requests service) :
    SameWork samgr (samgr.modifyPool pool change) := by
  refine ⟨rfl, rfl, fun service => ?_, rfl⟩
  cases found : samgr.pools[pool]? with
  | none =>
    rw [SamgrLite.modifyPool, List.modify_eq_self (List.getElem?_eq_none_iff.mp found)]
  | some one =>
    have changed := sum_map_modify found change (TaskPool.requests service)
    rw [keeps one service found] at changed
    exact Nat.add_right_cancel changed

theorem createFixedTaskPool (queueSize : Nat) (created : Bool) :
    SameWork samgr (samgr.createFixedTaskPool queueSize created).1 := by
  cases created with
  | false => exact refl samgr
  | true =>
    refine ⟨rfl, rfl, fun service => ?_, rfl⟩
    simp [SamgrLite.createFixedTaskPool, TaskPool.requests]

theorem sharedPool (shared : Int → Option PoolPtr) :
    SameWork samgr { samgr with sharedPool := shared } :=
  ⟨rfl, rfl, fun _ => rfl, rfl⟩

theorem referenceTaskPool (pool : Option PoolPtr) :
    SameWork samgr (samgr.referenceTaskPool pool).1 := by
  cases pool with
  | none => exact refl samgr
  | some pool =>
    rw [SamgrLite.referenceTaskPool]
    split
    · exact refl samgr
    · exact modifyPool pool fun _ _ _ => rfl

theorem specifiedLoop (config : TaskConfig) (services : List ServiceImpl) :
    SameWork samgr (samgr.specifiedLoop config services).1 := by
  induction services with
  | nil => exact refl samgr
  | cons impl rest hypothesis =>
    rw [SamgrLite.specifiedLoop]
    split
    · exact hypothesis
    split
    · exact refl samgr
    next pool _ =>
    dsimp only
    split
    · exact referenceTaskPool (some pool)
    · exact hypothesis

theorem sharedTaskPool (pos : Int) (created : Bool) :
    SameWork samgr (samgr.sharedTaskPool pos created).1 := by
  rw [SamgrLite.sharedTaskPool]
  split
  · exact refl samgr
  · exact (createFixedTaskPool _ _).trans (sharedPool _)

theorem referenceSharedPool (pos : Int) (created : Bool) :
    SameWork samgr (samgr.referenceSharedPool pos created).1 := by
  unfold SamgrLite.referenceSharedPool
  dsimp only
  split
  · exact (sharedTaskPool _ _).trans (referenceTaskPool _)
  · exact ((sharedTaskPool _ _).trans (referenceTaskPool _)).trans (sharedPool _)

theorem specifiedTaskPool (config : TaskConfig) (created : Bool) :
    SameWork samgr (samgr.specifiedTaskPool config created).1 := by
  unfold SamgrLite.specifiedTaskPool
  dsimp only
  split
  · exact specifiedLoop _ _
  · exact (specifiedLoop _ _).trans (createFixedTaskPool _ _)

theorem newTaskPool (config : TaskConfig) (created : Bool) :
    SameWork samgr (samgr.newTaskPool config created).1 := by
  rw [SamgrLite.newTaskPool]
  split
  · exact referenceSharedPool _ _
  · exact specifiedTaskPool _ _
  · exact createFixedTaskPool _ _
  · exact refl samgr

theorem addTaskPool (service : ServicePtr) (created : Bool) :
    SameWork samgr (samgr.addTaskPool service created) := by
  rw [SamgrLite.addTaskPool]
  split
  · exact refl samgr
  · split
    · exact refl samgr
    · exact (newTaskPool _ _).trans (modifyService service fun _ _ => rfl)

theorem setInited {service : ServicePtr} {before after : Inited}
    (now : samgr.isInited service before = true) (started : before ≠ .svcInit)
    (other : after ≠ .svcInit) : SameWork samgr (samgr.setInited service after) := by
  refine modifyService service fun impl found => ?_
  rw [SamgrLite.isInited, found, any_some, decide_eq_true_iff] at now
  simp [ServiceImpl.core, now, started, other]

theorem beginWork (service : ServicePtr) : SameWork samgr (samgr.beginWork service) := by
  rw [SamgrLite.beginWork]
  split
  · next idle => exact setInited idle Inited.noConfusion Inited.noConfusion
  · exact refl samgr

theorem endWork (service : ServicePtr) : SameWork samgr (samgr.endWork service) := by
  rw [SamgrLite.endWork]
  split
  · next busy => exact setInited busy Inited.noConfusion Inited.noConfusion
  · exact refl samgr

theorem startTaskPools (created : PoolPtr → Bool) : SameWork samgr { samgr with
      pools := samgr.pools.mapIdx fun pool => SamgrLite.startTaskPool (created pool) } := by
  refine ⟨rfl, rfl, fun service => ?_, rfl⟩
  refine congrArg List.sum (List.ext_getElem? fun place => ?_)
  rw [List.getElem?_map, List.getElem?_mapIdx, List.getElem?_map]
  cases samgr.pools[place]? with
  | none => rfl
  | some pool => rfl

theorem queuePut_other (pool : PoolPtr) (service : ServicePtr) :
    SameWork samgr (samgr.queuePut pool (.other service)) := by
  rw [SamgrLite.queuePut]
  split
  · exact modifyPool pool fun one other _ => by simp [TaskPool.requests, List.count_append]
  · exact refl samgr

end SameWork

/-! ### Every service is accounted for -/

namespace SamgrLite

variable (samgr : SamgrLite)

def coreOf (service : ServicePtr) : Option (Nat × Bool) :=
  (samgr.services[service]?).map ServiceImpl.core

/-- A service that was there at the last call is initialized and no request is pending, or it is to
be initialized once; a later one is untouched. -/
def Accounted (service : ServicePtr) : Prop :=
  if service < samgr.registered then
    samgr.coreOf service = some (1, false) ∧ samgr.pending service = 0 ∨
      samgr.coreOf service = some (0, true) ∧ samgr.pending service = 1
  else samgr.pending service = 0 ∧ ∀ core, samgr.coreOf service = some core → core = (0, true)

structure Sound : Prop where
  bound : samgr.registered ≤ samgr.services.length
  accounted : ∀ service, samgr.Accounted service

end SamgrLite

section Pending

variable {samgr next : SamgrLite} {service : ServicePtr} {task : Nat} {pc : Pc}

theorem coreOf_eq (samgr : SamgrLite) (service : ServicePtr) :
    samgr.coreOf service = (samgr.services.map ServiceImpl.core)[service]? :=
  List.getElem?_map.symm

theorem isInited_svcInit_iff : samgr.isInited service .svcInit = true ↔
      ∃ calls, samgr.coreOf service = some (calls, true) := by
  rw [SamgrLite.isInited, SamgrLite.coreOf]
  cases samgr.services[service]? with
  | none => simp
  | some impl => simp [ServiceImpl.core]

theorem pending_setPc (found : samgr.pc[task]? = some pc) (after : Pc) :
    (samgr.setPc task after).pending service + pc.left.count service =
      samgr.pending service + after.left.count service := by
  have changed := sum_map_set found after fun one => one.left.count service
  rw [SamgrLite.pending, SamgrLite.pending, SamgrLite.setPc]
  dsimp only at changed ⊢
  omega

theorem SameWork.pending (same : SameWork samgr next) (service : ServicePtr) :
    next.pending service = samgr.pending service := by
  rw [SamgrLite.pending, SamgrLite.pending, same.pc, same.requests]

theorem SameWork.pending_setPc (same : SameWork samgr next) (found : samgr.pc[task]? = some pc)
    {after : Pc} (left : after.left = pc.left) (service : ServicePtr) :
    (next.setPc task after).pending service = samgr.pending service := by
  have moved := @Bootstrap.pending_setPc _ service _ _
    ((congrArg (fun pcs => pcs[task]?) same.pc).trans found) after
  rw [left, same.pending] at moved
  exact Nat.add_right_cancel moved

theorem SamgrLite.Sound.congr (sound : samgr.Sound)
    (registered : next.registered = samgr.registered)
    (services : next.services.map ServiceImpl.core = samgr.services.map ServiceImpl.core)
    (pending : ∀ service, next.pending service = samgr.pending service) : next.Sound := by
  refine ⟨?_, fun service => ?_⟩
  · have length := congrArg List.length services
    rw [List.length_map, List.length_map] at length
    rw [registered, length]
    exact sound.bound
  · have before := sound.accounted service
    rw [SamgrLite.Accounted, coreOf_eq] at before ⊢
    rwa [registered, services, pending service]

theorem SamgrLite.Sound.sameWork (sound : samgr.Sound) (same : SameWork samgr next) : next.Sound :=
  sound.congr same.registered same.services same.pending

theorem SamgrLite.Sound.setPc (sound : samgr.Sound) (same : SameWork samgr next)
    (found : samgr.pc[task]? = some pc) {after : Pc} (left : after.left = pc.left) :
    (next.setPc task after).Sound :=
  sound.congr same.registered same.services (same.pending_setPc found left)

end Pending

/-! ### What the steps do to the work -/

section Steps

variable {samgr : SamgrLite} {service : ServicePtr} {task : Nat}

theorem count_uninitialized (samgr : SamgrLite) (service : ServicePtr) :
    samgr.uninitialized.count service =
      if samgr.isInited service .svcInit = true then 1 else 0 := by
  have nodup : samgr.uninitialized.Nodup := List.nodup_range.filter _
  rw [List.Nodup.count nodup]
  congr 1
  rw [SamgrLite.uninitialized, List.mem_filter, List.mem_range, eq_iff_iff]
  refine ⟨And.right, fun fresh => ⟨?_, fresh⟩⟩
  cases found : samgr.services[service]? with
  | none => simp [SamgrLite.isInited, found] at fresh
  | some impl => exact (List.getElem?_eq_some_iff.mp found).1

theorem SamgrLite.Sound.bootstrap (sound : samgr.Sound) (found : samgr.pc[task]? = some .user)
    (unsent : ∀ service, samgr.isInited service .svcInit = true → samgr.pending service = 0) :
    ({ samgr with registered := samgr.services.length }.setPc task
      (.adding samgr.uninitialized samgr.uninitialized)).Sound := by
  refine ⟨Nat.le_refl _, fun service => ?_⟩
  have moved : _ + 0 = samgr.pending service + samgr.uninitialized.count service :=
    @pending_setPc { samgr with registered := samgr.services.length } _ _ _ found
      (.adding samgr.uninitialized samgr.uninitialized)
  rw [Nat.add_zero, count_uninitialized] at moved
  have before := sound.accounted service
  rw [SamgrLite.Accounted] at before ⊢
  rw [moved]
  change if service < samgr.services.length then
    samgr.coreOf service = _ ∧ _ ∨ samgr.coreOf service = _ ∧ _
    else _ ∧ ∀ core, samgr.coreOf service = some core → _
  by_cases there : service < samgr.services.length
  · obtain ⟨core, core_⟩ : ∃ core, samgr.coreOf service = some core :=
      ⟨_, congrArg (Option.map ServiceImpl.core) (List.getElem?_eq_getElem there)⟩
    rw [if_pos there]
    by_cases earlier : service < samgr.registered
    · rw [if_pos earlier] at before
      rcases before with ⟨done, settled⟩ | ⟨fresh, sent⟩
      · refine Or.inl ⟨done, ?_⟩
        rw [settled, if_neg fun fresh => ?_]
        obtain ⟨calls, other⟩ := isInited_svcInit_iff.mp fresh
        rw [done] at other
        cases other
      · have settled := unsent service (isInited_svcInit_iff.mpr ⟨0, fresh⟩)
        omega
    · rw [if_neg earlier] at before
      have fresh : samgr.coreOf service = some (0, true) := by
        rw [core_, before.2 core core_]
      refine Or.inr ⟨fresh, ?_⟩
      rw [if_pos (isInited_svcInit_iff.mpr ⟨0, fresh⟩), before.1]
  · have earlier : ¬ service < samgr.registered := fun earlier =>
      there (Nat.lt_of_lt_of_le earlier sound.bound)
    have missing : samgr.coreOf service = none :=
      congrArg (Option.map ServiceImpl.core) (List.getElem?_eq_none (Nat.le_of_not_lt there))
    rw [if_neg there, missing]
    rw [if_neg earlier] at before
    refine ⟨?_, fun core other => absurd other.symm (some_ne_none core)⟩
    rw [before.1, if_neg fun fresh => ?_]
    obtain ⟨calls, other⟩ := isInited_svcInit_iff.mp fresh
    rw [missing] at other
    cases other

theorem requests_queue (pool : TaskPool) (exchange : Exchange) :
    TaskPool.requests service { pool with queue := pool.queue ++ [exchange] } =
      pool.requests service + if exchange = .initRequest service then 1 else 0 := by
  rw [TaskPool.requests, TaskPool.requests, List.count_append, List.count_singleton]
  simp only [beq_iff_eq]
  omega

variable {pool : PoolPtr}

theorem pending_queuePut (room : samgr.hasRoom pool = true)
    (exchange : Exchange) (service : ServicePtr) : (samgr.queuePut pool exchange).pending service =
      samgr.pending service + if exchange = .initRequest service then 1 else 0 := by
  rw [SamgrLite.queuePut, if_pos room]
  cases found : samgr.pools[pool]? with
  | none => simp [SamgrLite.hasRoom, found] at room
  | some one =>
    have changed := sum_map_modify found
      (fun one => { one with queue := one.queue ++ [exchange] }) (TaskPool.requests service)
    rw [requests_queue] at changed
    rw [SamgrLite.pending, SamgrLite.pending, SamgrLite.modifyPool]
    dsimp only
    omega

theorem SamgrLite.Sound.initializeSingleService {left services : List ServicePtr}
    (sound : samgr.Sound)
    (found : samgr.pc[task]? = some (.initializing (service :: left) services))
    (room : (samgr.poolOf service).any samgr.hasRoom = true) :
    ((samgr.initializeSingleService service).setPc task (.adding left services)).Sound := by
  cases pool_ : samgr.poolOf service with
  | none =>
    rw [pool_] at room
    exact absurd room Bool.false_ne_true
  | some pool =>
    rw [pool_] at room
    have sent : samgr.initializeSingleService service =
        samgr.queuePut pool (.initRequest service) := by
      rw [SamgrLite.initializeSingleService, pool_]
    rw [sent]
    have put : samgr.queuePut pool (.initRequest service) = samgr.modifyPool pool fun one =>
          { one with queue := one.queue ++ [.initRequest service] } := if_pos room
    refine sound.congr (by rw [put]; rfl) (by rw [put]; rfl) fun other => ?_
    have moved := @pending_setPc (samgr.queuePut pool (.initRequest service)) other _ _
      (by rw [put]; exact found) (.adding left services)
    rw [pending_queuePut room, Pc.left, Pc.left, List.count_cons] at moved
    simp only [Exchange.initRequest.injEq, beq_iff_eq] at moved
    omega

theorem SameWork.receive {exchange : Exchange} {queue : List Exchange} {queueSize ref : Nat}
    (found : samgr.pools[pool]? = some ⟨exchange :: queue, queueSize, ref, true, none⟩) :
    SameWork samgr
      (samgr.modifyPool pool fun _ => ⟨queue, queueSize, ref, true, some exchange⟩) := by
  refine SameWork.modifyPool pool fun one service one_ => ?_
  obtain rfl := some_inj.mp (found.symm.trans one_)
  simp [TaskPool.requests, List.count_cons]

theorem pending_processed {exchange : Exchange}
    (found : (samgr.pools[pool]?).bind TaskPool.processing = some exchange) (service : ServicePtr) :
    (samgr.modifyPool pool fun one => { one with processing := none }).pending service +
      (if exchange = .initRequest service then 1 else 0) = samgr.pending service := by
  obtain ⟨one, one_, processing⟩ := bind_eq_some_iff.mp found
  have changed := sum_map_modify one_ (fun one => { one with processing := none })
    (TaskPool.requests service)
  have before : one.requests service = TaskPool.requests service { one with processing := none } +
        if exchange = .initRequest service then 1 else 0 := by
    simp [TaskPool.requests, processing]
  rw [SamgrLite.pending, SamgrLite.pending, SamgrLite.modifyPool]
  dsimp only at changed before ⊢
  omega

theorem SameWork.processed {service : ServicePtr}
    (found : (samgr.pools[pool]?).bind TaskPool.processing = some (.other service)) :
    SameWork samgr (samgr.modifyPool pool fun one => { one with processing := none }) := by
  refine SameWork.modifyPool pool fun one target one_ => ?_
  obtain ⟨same, same_, processing⟩ := bind_eq_some_iff.mp found
  obtain rfl := some_inj.mp (one_.symm.trans same_)
  simp [TaskPool.requests, processing]

theorem coreOf_initialized (samgr : SamgrLite) (service other : ServicePtr) :
    ((samgr.defaultInitialize service).setInited service .svcIdle).coreOf other =
      if service = other then (samgr.coreOf other).map fun core => (core.1 + 1, false)
      else samgr.coreOf other := by
  rw [SamgrLite.coreOf, SamgrLite.setInited, SamgrLite.modifyService, SamgrLite.defaultInitialize,
    SamgrLite.modifyService, List.getElem?_modify, List.getElem?_modify, SamgrLite.coreOf]
  cases samgr.services[other]? with
  | none => simp
  | some impl =>
    by_cases same : service = other
    · simp [same, ServiceImpl.core]
    · simp [same]

theorem SamgrLite.Sound.handleInitRequest (sound : samgr.Sound)
    (found : (samgr.pools[pool]?).bind TaskPool.processing = some (.initRequest service)) :
    (((samgr.modifyPool pool fun one => { one with processing := none }).defaultInitialize
      service).setInited service .svcIdle).Sound := by
  refine ⟨Nat.le_trans sound.bound (by simp [SamgrLite.setInited, SamgrLite.defaultInitialize,
    SamgrLite.modifyService, SamgrLite.modifyPool]), fun other => ?_⟩
  have fewer := pending_processed found other
  have before := sound.accounted other
  rw [SamgrLite.Accounted, coreOf_initialized]
  change if other < samgr.registered then
      (if service = other then (samgr.coreOf other).map _ else samgr.coreOf other) = _ ∧
        (samgr.modifyPool pool _).pending other = _ ∨
      (if service = other then (samgr.coreOf other).map _ else samgr.coreOf other) = _ ∧
        (samgr.modifyPool pool _).pending other = _
    else (samgr.modifyPool pool _).pending other = _ ∧
      ∀ core, (if service = other then (samgr.coreOf other).map _ else samgr.coreOf other) =
        some core → _
  rw [SamgrLite.Accounted] at before
  by_cases same : service = other
  · subst same
    rw [if_pos rfl] at fewer
    by_cases earlier : service < samgr.registered
    · rw [if_pos earlier] at before ⊢
      rcases before with ⟨_, settled⟩ | ⟨fresh, sent⟩
      · omega
      · refine Or.inl ⟨by rw [if_pos rfl, fresh]; rfl, ?_⟩
        omega
    · rw [if_neg earlier] at before
      omega
  · have kept : ¬ Exchange.initRequest service = .initRequest other := fun equal =>
      same (Exchange.initRequest.inj equal)
    rw [if_neg kept, Nat.add_zero] at fewer
    rw [if_neg same, fewer]
    exact before

theorem coreOf_register (samgr : SamgrLite) (config : TaskConfig) (service : ServicePtr) :
    SamgrLite.coreOf { samgr with services := samgr.services ++ [⟨config, none, .svcInit, 0⟩] }
      service =
        if service = samgr.services.length then some (0, true) else samgr.coreOf service := by
  rw [SamgrLite.coreOf, SamgrLite.coreOf, List.getElem?_append]
  split
  · next before => rw [if_neg (Nat.ne_of_lt before)]
  next after =>
  split
  · next last => simp [last, ServiceImpl.core]
  next other =>
  have beyond : 1 ≤ service - samgr.services.length :=
    Nat.sub_pos_of_lt (Nat.lt_of_le_of_ne (Nat.le_of_not_lt after) fun same => other same.symm)
  rw [List.getElem?_eq_none (Nat.le_of_not_lt after), List.getElem?_eq_none beyond]

theorem SamgrLite.Sound.register (sound : samgr.Sound) (config : TaskConfig) :
    SamgrLite.Sound { samgr with services := samgr.services ++ [⟨config, none, .svcInit, 0⟩] } := by
  refine ⟨Nat.le_trans sound.bound (by simp), fun service => ?_⟩
  have before := sound.accounted service
  rw [SamgrLite.Accounted] at before
  rw [SamgrLite.Accounted, coreOf_register]
  by_cases last : service = samgr.services.length
  · have after : ¬ service < samgr.registered := Nat.not_lt_of_le (last ▸ sound.bound)
    rw [if_neg after] at before ⊢
    refine ⟨before.1, fun core core_ => ?_⟩
    rw [if_pos last] at core_
    exact (some_inj.mp core_).symm
  · rw [if_neg last]
    exact before

end Steps

/-! ### Whole runs -/

namespace SamgrLite

/-- Nothing is initialized, nobody is in `SAMGR_Bootstrap` and there are no messages. -/
structure Initial (samgr : SamgrLite) : Prop where
  services : ∀ impl ∈ samgr.services, impl.inited = .svcInit ∧ impl.initializeCalls = 0
  pc : ∀ pc ∈ samgr.pc, pc = .user
  pools : ∀ pool ∈ samgr.pools, pool.queue = [] ∧ pool.processing = none
  registered : samgr.registered = 0

variable {samgr next : SamgrLite}

theorem Settled.pending_eq_zero (settled : samgr.Settled) (service : ServicePtr) :
    samgr.pending service = 0 := by
  rw [pending, Nat.add_eq_zero_iff, List.sum_eq_zero_iff_forall_eq_nat,
    List.sum_eq_zero_iff_forall_eq_nat, List.forall_mem_map, List.forall_mem_map]
  refine ⟨fun pc pc_ => ?_, fun pool pool_ => ?_⟩
  · rw [settled.1 pc pc_]
    rfl
  · obtain ⟨queue, processing⟩ := settled.2 pool pool_
    simp [TaskPool.requests, queue, processing]

theorem Initial.sound (initial : samgr.Initial) : samgr.Sound := by
  refine ⟨initial.registered ▸ Nat.zero_le _, fun service => ?_⟩
  rw [Accounted, if_neg (initial.registered ▸ Nat.not_lt_zero service)]
  refine ⟨Settled.pending_eq_zero ⟨initial.pc, initial.pools⟩ service, fun core core_ => ?_⟩
  obtain ⟨impl, impl_, rfl⟩ := map_eq_some_iff.mp core_
  obtain ⟨inited, calls⟩ := initial.services impl (List.mem_of_getElem? impl_)
  simp [ServiceImpl.core, inited, calls]

theorem Sound.step {action : Action} (sound : samgr.Sound)
    (careful_ : careful samgr action = true) (result : samgr.step action = some next) :
    next.Sound := by
  cases action with
  | bootstrap task kept =>
    rw [SamgrLite.step] at result
    split at result
    · next found =>
      have each := List.all_eq_true.mp careful_
      have all : samgr.uninitialized.filter kept = samgr.uninitialized :=
        List.filter_eq_self.mpr fun service listed =>
          (Bool.and_eq_true_iff.mp (each service listed)).1
      obtain rfl := some_inj.mp result
      rw [all]
      refine sound.bootstrap found fun service fresh => ?_
      have listed : service ∈ samgr.uninitialized := by
        refine List.one_le_count_iff.mp (Nat.le_of_eq ?_)
        rw [count_uninitialized, if_pos fresh]
      exact beq_iff_eq.mp (Bool.and_eq_true_iff.mp (each service listed)).2
    · cases result
  | addTaskPool task created =>
    rw [SamgrLite.step] at result
    split at result
    · next found =>
      obtain rfl := some_inj.mp result
      exact sound.setPc (SameWork.addTaskPool _ _) found rfl
    · next found =>
      obtain rfl := some_inj.mp result
      exact sound.setPc (SameWork.refl _) found rfl
    · cases result
  | initializeSingleService task =>
    rw [SamgrLite.step] at result
    split at result
    · next found =>
      obtain rfl := some_inj.mp result
      rw [careful, found] at careful_
      exact sound.initializeSingleService found careful_
    · cases result
  | startTaskPools task created =>
    rw [SamgrLite.step] at result
    split at result
    · next found =>
      obtain rfl := some_inj.mp result
      exact sound.setPc (SameWork.startTaskPools _) found rfl
    · cases result
  | receive pool =>
    rw [SamgrLite.step] at result
    split at result
    · next exchange queue queueSize ref found =>
      obtain rfl := some_inj.mp result
      have received := sound.sameWork (SameWork.receive found)
      cases exchange with
      | initRequest service => exact received.sameWork (SameWork.beginWork service)
      | other service => exact received.sameWork (SameWork.beginWork service)
    · cases result
  | process pool =>
    rw [SamgrLite.step] at result
    split at result
    · cases result
    next exchange found =>
    obtain rfl := some_inj.mp result
    cases exchange with
    | initRequest service =>
      exact (sound.handleInitRequest found).sameWork (SameWork.endWork service)
    | other service =>
      exact (sound.sameWork (SameWork.processed found)).sameWork (SameWork.endWork service)
  | put service =>
    obtain ⟨pool, _, rfl⟩ := map_eq_some_iff.mp result
    exact sound.sameWork (SameWork.queuePut_other pool service)
  | register config =>
    obtain rfl := some_inj.mp result
    exact sound.register config

theorem sound_of_reachable
    (reached : Reachable step (fun samgr action => careful samgr action = true) Initial samgr) :
    samgr.Sound :=
  reached.invariant (fun _ initial => initial.sound)
    fun _ _ _ _ sound careful_ result => sound.step careful_ result

/-- Every service that was registered before the last call is initialized exactly once. -/
def InitializedOnce (samgr : SamgrLite) : Prop :=
  ∀ service < samgr.registered, ∃ impl, samgr.services[service]? = some impl ∧
    impl.initializeCalls = 1 ∧ impl.inited ≠ .svcInit

end SamgrLite

/-- When the calls have returned and all messages are processed, every service that was registered
before the last call is initialized exactly once. -/
theorem initializedOnce_of_reachable {samgr : SamgrLite}
    (reached : Reachable SamgrLite.step (fun samgr action => careful samgr action = true)
      SamgrLite.Initial samgr) (settled : samgr.Settled) : samgr.InitializedOnce := by
  intro service earlier
  have accounted := (SamgrLite.sound_of_reachable reached).accounted service
  rw [SamgrLite.Accounted, if_pos earlier, settled.pending_eq_zero service] at accounted
  rcases accounted with ⟨done, _⟩ | ⟨_, sent⟩
  · obtain ⟨impl, impl_, core⟩ := Option.map_eq_some_iff.mp done
    obtain ⟨calls, started⟩ := Prod.mk.inj core
    exact ⟨impl, impl_, calls, of_decide_eq_false started⟩
  · cases sent

/-! ### Runs of three services -/

/-- Services that are registered, before the call. -/
def registered (configs : List TaskConfig) : SamgrLite :=
  ⟨configs.map fun config => ⟨config, none, .svcInit, 0⟩, [], fun _ => none, [.user], 0⟩

theorem initial_registered (configs : List TaskConfig) : (registered configs).Initial := by
  refine ⟨?_, ?_, List.forall_mem_nil _, rfl⟩
  · rw [registered, List.forall_mem_map]
    exact fun _ _ => ⟨rfl, rfl⟩
  · rw [registered, List.forall_mem_singleton]

/-- A service of each kind of task, with its own queue or a shared one. -/
def threeServices : SamgrLite :=
  registered [⟨0, 24, 2048, 20, .sharedTask⟩, ⟨0, 25, 2048, 1, .singleTask⟩,
    ⟨0, 16, 2048, 20, .specifiedTask⟩]

/-- `SAMGR_Bootstrap` of three services. -/
def bootstrap : List Action :=
  [.bootstrap 0 fun _ => true, .addTaskPool 0 true, .initializeSingleService 0,
    .addTaskPool 0 true, .initializeSingleService 0, .addTaskPool 0 true,
    .initializeSingleService 0, .addTaskPool 0 true, .startTaskPools 0 fun _ => true]

/-- The tasks of the pools process what is in their queues. -/
def messages : List Action :=
  [.put 0, .receive 1, .receive 0, .process 1, .process 0, .receive 0, .receive 2, .process 2,
    .process 0]

theorem initializedOnce_of_reachable_sample : ∃ samgr,
    execute SamgrLite.step careful threeServices (bootstrap ++ messages) = some samgr ∧
      samgr.Settled ∧ samgr.InitializedOnce := by
  have runs : (execute SamgrLite.step careful threeServices (bootstrap ++ messages)).map
      (fun samgr => decide samgr.Settled) = some true := by
    decide
  obtain ⟨samgr, result, settled⟩ := Option.map_eq_some_iff.mp runs
  have settled := of_decide_eq_true settled
  exact ⟨samgr, result, settled, initializedOnce_of_reachable
    (.of_execute (fun _ _ meets => meets) _ (.start (initial_registered _)) result) settled⟩

/-- Three services that share a pool whose queue has room for two requests. -/
def specifiedServices : SamgrLite :=
  registered (.replicate 3 ⟨0, 16, 2048, 2, .specifiedTask⟩)

/-- The request for the third service is dropped, and the service is never initialized. -/
theorem request_dropped : ∃ samgr, execute SamgrLite.step (fun _ _ => true) specifiedServices
        (bootstrap ++ [.receive 0, .process 0, .receive 0, .process 0]) = some samgr ∧
      Reachable SamgrLite.step (fun _ _ => True) SamgrLite.Initial samgr ∧ samgr.Settled ∧
        2 < samgr.registered ∧ samgr.services[2]? =
          some ⟨⟨0, 16, 2048, 2, .specifiedTask⟩, some 0, .svcInit, 0⟩ ∧
          ¬samgr.InitializedOnce := by
  have runs : (execute SamgrLite.step (fun _ _ => true) specifiedServices
      (bootstrap ++ [.receive 0, .process 0, .receive 0, .process 0])).map
      (fun samgr => (decide samgr.Settled, samgr.registered, samgr.services[2]?)) =
        some (true, 3, some ⟨⟨0, 16, 2048, 2, .specifiedTask⟩, some 0, .svcInit, 0⟩) := by
    decide
  obtain ⟨samgr, result, state⟩ := Option.map_eq_some_iff.mp runs
  obtain ⟨settled, rest⟩ := Prod.mk.inj state
  obtain ⟨registered_, third⟩ := Prod.mk.inj rest
  have last : 2 < samgr.registered := by omega
  refine ⟨samgr, result, .of_execute (fun _ _ _ => trivial) _
    (.start (initial_registered _)) result, of_decide_eq_true settled, last, third, fun once => ?_⟩
  obtain ⟨impl, impl_, calls, _⟩ := once 2 last
  rw [third] at impl_
  obtain rfl := Option.some_inj.mp impl_
  cases calls

end TowerSafe.Bootstrap
