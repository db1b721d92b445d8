/-
This file embeds the task loop of `task_manager.c` together with the registration of services: the
service that a task keeps between two messages, the requests to initialize that carry a pointer to
the service, and `UnregisterService`, which frees it. A task uses a service only while it is
registered under the service id of the message, as long as a service is unregistered only when no
task and no request has it, and the answer to a request finds the service it belongs to.

Which pool `AddTaskPool` finds for a service, and where memory is, is left open.
-/

import Mathlib.Data.List.Basic
import Mathlib.Data.List.ReduceOption
import Mathlib.Logic.Function.Basic
import TowerSafe.Library.Transition

namespace TowerSafe.TaskLoop

open Library List Option

/-! ### Vectors -/

abbrev ServicePtr := Nat

abbrev PoolPtr := Nat

/-- `Vector`: `data` has `top` entries, `max` is the memory it has. -/
structure Vector where
  data : List (Option ServicePtr)
  max : Nat
  deriving DecidableEq

def growStep : Nat := 4

namespace Vector

variable (vector : Vector)

def at_ (index : Int) : Option ServicePtr :=
  if index < 0 then none else (vector.data[index.toNat]?).join

def swap (index : Nat) (element : Option ServicePtr) : Vector :=
  { vector with data := vector.data.set index element }

def num : Nat :=
  vector.data.countP Option.isSome

/-- The place that `VECTOR_Add` finds among the released ones, from the last one on. -/
def released : Option Nat :=
  (List.range vector.data.length).reverse.find? fun place => vector.data[place]? = some none

/-- `VECTOR_Add`; `memory` is whether the vector can grow. -/
def add (element : ServicePtr) (memory : Bool) : Vector × Int :=
  if vector.max ≤ vector.data.length then
    match vector.released with
    | some place => (vector.swap place (some element), place)
    | none =>
        if memory then
          (⟨vector.data ++ [some element], vector.max + growStep⟩, vector.data.length)
        else (vector, -1)
  else ({ vector with data := vector.data ++ [some element] }, vector.data.length)

end Vector

/-! ### Services, tasks and messages -/

/-- The states of a service. -/
inductive Inited where
  | svcInit
  | svcIdle
  | svcBusy
  deriving DecidableEq

/-- `ServiceImpl`: whether there is a default interface, and how many features there are. -/
structure ServiceImpl where
  name : String
  serviceId : Int
  defaultApi : Bool
  features : Nat
  taskPool : Option PoolPtr
  inited : Inited
  deriving DecidableEq

/-- `Exchange`, by its type and handler, with the service id of its identity. -/
inductive Exchange where
  /-- `MSG_NON` and `MSG_CON`. -/
  | request (serviceId : Int)
  /-- `MSG_ACK`. -/
  | ack (serviceId : Int)
  /-- `MSG_DIRECT` with any handler but `HandleInitRequest`. -/
  | direct (serviceId : Int)
  /-- `MSG_DIRECT` with `HandleInitRequest`. -/
  | initRequest (serviceId : Int) (service : ServicePtr)
  /-- `MSG_EXIT`. -/
  | exit
  deriving DecidableEq

def Exchange.serviceId : Exchange → Int
  | .request serviceId => serviceId
  | .ack serviceId => serviceId
  | .direct serviceId => serviceId
  | .initRequest serviceId _ => serviceId
  | .exit => 0

def Exchange.service : Exchange → Option ServicePtr
  | .initRequest _ service => some service
  | _ => none

/-- Where a task is in `TaskEntry`. -/
inductive Phase where
  /-- Before `SAMGR_MsgRecv`. -/
  | idle
  /-- Before `CorrectServiceImpl`. -/
  | received (exchange : Exchange)
  /-- Before `BeginWork`. -/
  | corrected (exchange : Exchange)
  /-- Before the handlers. -/
  | begun (exchange : Exchange)
  /-- In `HandleInitRequest`, after `DEFAULT_Initialize`. -/
  | handling (exchange : Exchange)
  /-- Before `EndWork`. -/
  | handled (exchange : Exchange)
  | exited
  deriving DecidableEq

/-- `TaskPool`, with its queue and its task, which keeps the last service. -/
structure TaskPool where
  queue : List Exchange
  queueSize : Nat
  ref : Int
  started : Bool
  serviceImpl : Option ServicePtr
  phase : Phase
  deriving DecidableEq

/-- `SamgrLiteImpl`, with the memory that services are in, the pools, and the services in the lists
of the calls of `SAMGR_Bootstrap` that are going on. -/
structure SamgrLite where
  services : Vector
  heap : ServicePtr → ServiceImpl
  pools : List TaskPool
  initServices : List ServicePtr

/-- The pool that `AddTaskPool` finds for a service. -/
inductive FoundPool where
  /-- A new one; a shared one keeps a reference of its own. -/
  | created (queueSize : Nat) (shared : Bool)
  /-- One that is there. -/
  | referenced (pool : PoolPtr)

def maxRefNum : Int := 15

def maxServiceNum : Nat := 0x7FF0

namespace SamgrLite

variable (samgr : SamgrLite)

def modifyService (service : ServicePtr) (change : ServiceImpl → ServiceImpl) : SamgrLite :=
  { samgr with heap := Function.update samgr.heap service (change (samgr.heap service)) }

def modifyPool (pool : PoolPtr) (change : TaskPool → TaskPool) : SamgrLite :=
  { samgr with pools := samgr.pools.modify pool change }

def getServiceByID (serviceId : Int) : Option ServicePtr :=
  if serviceId < 0 ∨ (samgr.services.data.length : Int) < serviceId then none
  else samgr.services.at_ serviceId

/-- `VECTOR_FindByKey` of the services. -/
def findByKey (name : String) : Option Nat :=
  samgr.services.data.findIdx? fun entry => entry.any fun service =>
    (samgr.heap service).name = name

/-- `RegisterService`, where the service is put at an address that no service is at. -/
def registerService (name : String) (address : ServicePtr) (memory : Bool) : SamgrLite :=
  if (samgr.findByKey name).isSome then samgr
  else if maxServiceNum ≤ samgr.services.num then samgr
  else
    { samgr with
      services := (samgr.services.add address memory).1
      heap := Function.update samgr.heap address
        ⟨name, (samgr.services.add address memory).2, false, 0, none, .svcInit⟩ }

def queuePut (pool : PoolPtr) (exchange : Exchange) : SamgrLite :=
  samgr.modifyPool pool fun one =>
    if one.queue.length < one.queueSize then { one with queue := one.queue ++ [exchange] } else one

def releaseTaskPool : Option PoolPtr → SamgrLite
  | none => samgr
  | some pool =>
      let released := samgr.modifyPool pool fun one => { one with ref := one.ref - 1 }
      if (released.pools[pool]?).any fun one => one.ref = 0 then released.queuePut pool .exit
      else released

/-- The place and the service that `UnregisterService` takes away. -/
def unregistered (name : String) : Option (Nat × ServicePtr) :=
  (samgr.findByKey name).bind fun place =>
    (samgr.services.at_ place).bind fun service =>
      if (samgr.heap service).defaultApi ∨ 0 < (samgr.heap service).features then none
      else some (place, service)

def unregisterService (name : String) : SamgrLite :=
  match samgr.unregistered name with
  | none => samgr
  | some (place, service) =>
      { samgr with services := samgr.services.swap place none }.releaseTaskPool
        (samgr.heap service).taskPool

def createFixedTaskPool (queueSize : Nat) (shared : Bool) : SamgrLite :=
  { samgr with
    pools := samgr.pools ++ [⟨[], queueSize, if shared then 2 else 1, false, none, .idle⟩] }

/-- `AddTaskPool` of a service without a pool. -/
def addTaskPool (service : ServicePtr) (found : FoundPool) : SamgrLite :=
  if (samgr.heap service).taskPool.isSome then samgr
  else
    match found with
    | .created queueSize shared =>
        (samgr.createFixedTaskPool queueSize shared).modifyService service fun one =>
          { one with taskPool := some samgr.pools.length }
    | .referenced pool =>
        (samgr.modifyPool pool fun one =>
          if one.ref < maxRefNum then { one with ref := one.ref + 1 } else one).modifyService
            service fun one => { one with taskPool := some pool }

/-- `InitializeSingleService`; without a pool nothing is sent. -/
def initializeSingleService (service : ServicePtr) : SamgrLite :=
  match (samgr.heap service).taskPool with
  | none => samgr
  | some pool => samgr.queuePut pool (.initRequest (samgr.heap service).serviceId service)

def correctServiceImpl (exchange : Exchange) (serviceImpl : Option ServicePtr) :
    Option ServicePtr :=
  match exchange with
  | .ack _ => serviceImpl
  | _ =>
      if serviceImpl.all fun service => (samgr.heap service).serviceId ≠ exchange.serviceId then
        samgr.getServiceByID exchange.serviceId
      else serviceImpl

/-- Go from one state of a service to another one. -/
def work (serviceImpl : Option ServicePtr) (before after : Inited) : SamgrLite :=
  match serviceImpl with
  | none => samgr
  | some service =>
      samgr.modifyService service fun one =>
        if one.inited = before then { one with inited := after } else one

def beginWork (serviceImpl : Option ServicePtr) : SamgrLite :=
  samgr.work serviceImpl .svcIdle .svcBusy

def endWork (serviceImpl : Option ServicePtr) : SamgrLite :=
  samgr.work serviceImpl .svcBusy .svcIdle

/-- Change the task of a pool. -/
def setTask (pool : PoolPtr) (serviceImpl : Option ServicePtr) (phase : Phase) : SamgrLite :=
  samgr.modifyPool pool fun one => { one with serviceImpl := serviceImpl, phase := phase }

end SamgrLite

/-! ### Runs -/

inductive Action where
  | registerService (name : String) (address : ServicePtr) (memory : Bool)
  | unregisterService (name : String)
  /-- An interface or feature of a service comes or goes. -/
  | setInterfaces (service : ServicePtr) (defaultApi : Bool) (features : Nat)
  /-- `SAMGR_Bootstrap` up to its list, with those services that the list has memory for. -/
  | bootstrap (kept : ServicePtr → Bool)
  | addTaskPool (service : ServicePtr) (found : FoundPool)
  /-- `InitializeSingleService` of a service in a list. -/
  | initializeSingleService (service : ServicePtr)
  /-- `SAMGR_StartTaskPool`. -/
  | startTaskPool (pool : PoolPtr)
  /-- A message is sent that is no request to initialize. -/
  | send (pool : PoolPtr) (exchange : Exchange)
  /-- `SAMGR_MsgRecv`. -/
  | receive (pool : PoolPtr)
  /-- `CorrectServiceImpl`. -/
  | correct (pool : PoolPtr)
  /-- `BeginWork`. -/
  | beginWork (pool : PoolPtr)
  /-- `ProcResponse`, `ProcDirectRequest` and `ProcRequest`. -/
  | handle (pool : PoolPtr)
  /-- The rest of `HandleInitRequest`. -/
  | finishInit (pool : PoolPtr)
  /-- `EndWork`. -/
  | endWork (pool : PoolPtr)

/-- Whether `SAMGR_SendRequest` and the like can make a message. -/
def Exchange.isSent : Exchange → Bool
  | .request _ | .ack _ | .direct _ => true
  | .initRequest _ _ | .exit => false

/-- What comes after the handlers: a request to initialize is not done yet. -/
def Exchange.afterHandle (exchange : Exchange) : Phase :=
  if exchange.service.isSome then .handling exchange else .handled exchange

namespace SamgrLite

variable (samgr : SamgrLite)

/-- The phase and the last service of the task of a pool. -/
def task (pool : PoolPtr) : Option (Phase × Option ServicePtr) :=
  (samgr.pools[pool]?).map fun one => (one.phase, one.serviceImpl)

def step : Action → Option SamgrLite
  | .registerService name address memory =>
      if some address ∈ samgr.services.data then none
      else some (samgr.registerService name address memory)
  | .unregisterService name => some (samgr.unregisterService name)
  | .setInterfaces service defaultApi features =>
      some (samgr.modifyService service fun one =>
        { one with defaultApi := defaultApi, features := features })
  | .bootstrap kept =>
      some { samgr with
        initServices :=
          samgr.initServices ++ (samgr.services.data.reduceOption.filter fun service =>
            (samgr.heap service).inited = .svcInit && kept service) }
  | .addTaskPool service found =>
      if service ∈ samgr.initServices then some (samgr.addTaskPool service found) else none
  | .initializeSingleService service =>
      if service ∈ samgr.initServices then
        some ({ samgr with
          initServices := samgr.initServices.erase service }.initializeSingleService service)
      else none
  | .startTaskPool pool => some (samgr.modifyPool pool fun one => { one with started := true })
  | .send pool exchange => if exchange.isSent then some (samgr.queuePut pool exchange) else none
  | .receive pool =>
      match samgr.pools[pool]? with
      | some ⟨exchange :: queue, queueSize, ref, true, serviceImpl, .idle⟩ =>
          some (samgr.modifyPool pool fun _ => ⟨queue, queueSize, ref, true, serviceImpl,
            if exchange = .exit then .exited else .received exchange⟩)
      | _ => none
  | .correct pool =>
      match samgr.task pool with
      | some (.received exchange, serviceImpl) =>
          some (samgr.setTask pool (samgr.correctServiceImpl exchange serviceImpl)
            (.corrected exchange))
      | _ => none
  | .beginWork pool =>
      match samgr.task pool with
      | some (.corrected exchange, serviceImpl) =>
          some ((samgr.beginWork serviceImpl).setTask pool serviceImpl (.begun exchange))
      | _ => none
  | .handle pool =>
      match samgr.task pool with
      | some (.begun exchange, serviceImpl) =>
          some (samgr.setTask pool serviceImpl exchange.afterHandle)
      | _ => none
  | .finishInit pool =>
      match samgr.task pool with
      | some (.handling exchange, serviceImpl) =>
          some ((match exchange.service with
            | none => samgr
            | some service =>
                samgr.modifyService service fun one => { one with inited := .svcIdle }).setTask
                  pool serviceImpl (.handled exchange))
      | _ => none
  | .endWork pool =>
      match samgr.task pool with
      | some (.handled _, serviceImpl) =>
          some ((samgr.endWork serviceImpl).setTask pool serviceImpl .idle)
      | _ => none

/-- The services that a step applies `BeginWork`, a handler or `EndWork` to, with the service id of
the message. -/
def applied : Action → List (ServicePtr × Int)
  | .beginWork pool =>
      match samgr.task pool with
      | some (.corrected exchange, some service) => [(service, exchange.serviceId)]
      | _ => []
  | .handle pool =>
      match samgr.task pool with
      | some (.begun (.request serviceId), some service) => [(service, serviceId)]
      | some (.begun (.initRequest serviceId service), _) => [(service, serviceId)]
      | _ => []
  | .finishInit pool =>
      match samgr.task pool with
      | some (.handling (.initRequest serviceId service), _) => [(service, serviceId)]
      | _ => []
  | .endWork pool =>
      match samgr.task pool with
      | some (.handled exchange, some service) => [(service, exchange.serviceId)]
      | _ => []
  | _ => []

end SamgrLite

/-! ### Who has a service -/

/-- The message that a task processes, until its handlers are done. -/
def Phase.exchange : Phase → Option Exchange
  | .received exchange | .corrected exchange | .begun exchange | .handling exchange =>
      some exchange
  | .idle | .handled _ | .exited => none

/-- The message whose service the task has found. -/
def Phase.corrected? : Phase → Option Exchange
  | .corrected exchange | .begun exchange | .handling exchange | .handled exchange =>
      some exchange
  | .idle | .received _ | .exited => none

namespace TaskPool

variable (pool : TaskPool)

/-- Whether the task has a service: as the last one, or in a request to initialize it. -/
def holds (service : ServicePtr) : Bool :=
  pool.serviceImpl = some service ||
    (pool.phase.exchange.any fun exchange => exchange.service = some service) ||
    pool.queue.any fun exchange => exchange.service = some service

def stopped : Bool :=
  pool.phase = .exited || (pool.phase = .idle && pool.queue.head? = some .exit)

end TaskPool

namespace SamgrLite

variable (samgr : SamgrLite)

/-- Whether a task that waits for messages gets `MSG_EXIT` next when a service is unregistered. -/
def stops (service : ServicePtr) (pool : PoolPtr) (one : TaskPool) : Bool :=
  one.phase = .idle && one.queue.isEmpty && decide (0 < one.queueSize) && one.ref = 1 &&
    (samgr.heap service).taskPool = some pool

/-- Whether no task that goes on has a service, and no call of `SAMGR_Bootstrap`. -/
def unused (service : ServicePtr) : Bool :=
  decide (service ∉ samgr.initServices) &&
    (List.range samgr.pools.length).all fun pool => (samgr.pools[pool]?).all fun one =>
      !one.holds service || one.stopped || samgr.stops service pool one

end SamgrLite

/-- What it takes: a service is unregistered when it is unused, and when a task gets the answer to a
request, its last service has the service id of the answer. -/
def careful (samgr : SamgrLite) : Action → Bool
  | .unregisterService name => (samgr.unregistered name).all fun found => samgr.unused found.2
  | .correct pool =>
      match samgr.task pool with
      | some (.received (.ack serviceId), serviceImpl) =>
          serviceImpl.all fun service => (samgr.heap service).serviceId = serviceId
      | _ => true
  | _ => true

/-! ### The vector of services -/

namespace Vector

variable {vector : Vector} {service element : ServicePtr} {index : Int} {place : Nat}

theorem at_natCast (vector : Vector) (place : Nat) :
    vector.at_ place = (vector.data[place]?).join :=
  if_neg (Int.not_lt.mpr (Int.natCast_nonneg place))

theorem at_eq_some (found : vector.at_ index = some service) :
    ∃ place : Nat, index = place ∧ vector.data[place]? = some (some service) := by
  rw [at_] at found
  split at found
  · cases found
  · next positive =>
    exact ⟨index.toNat, (Int.toNat_of_nonneg (Int.not_lt.mp positive)).symm,
      join_eq_some_iff.mp found⟩

theorem at_swap {entry : Option ServicePtr} (there : place < vector.data.length) (index : Int) :
    (vector.swap place entry).at_ index = if index = place then entry else vector.at_ index := by
  by_cases negative : index < 0
  · rw [at_, at_, if_pos negative, if_pos negative, if_neg]
    omega
  obtain ⟨other, rfl⟩ := Int.eq_ofNat_of_zero_le (Int.not_lt.mp negative)
  rw [at_natCast, at_natCast, swap, List.getElem?_set]
  by_cases same : place = other
  · rw [if_pos same, if_pos there, if_pos (by rw [same])]
    rfl
  · rw [if_neg same, if_neg (by omega)]

theorem at_append {most : Nat} (element : ServicePtr) (index : Int) :
    (Vector.mk (vector.data ++ [some element]) most).at_ index =
      if index = vector.data.length then some element else vector.at_ index := by
  by_cases negative : index < 0
  · rw [at_, at_, if_pos negative, if_pos negative, if_neg]
    omega
  obtain ⟨other, rfl⟩ := Int.eq_ofNat_of_zero_le (Int.not_lt.mp negative)
  rw [at_natCast, at_natCast, List.getElem?_append]
  split
  · next before => rw [if_neg (by omega)]
  next after =>
  rw [List.getElem?_eq_none (Nat.le_of_not_lt after), List.getElem?_singleton]
  by_cases same : other = vector.data.length
  · rw [if_pos (by omega), if_pos (by rw [same])]
    rfl
  · rw [if_neg (by omega), if_neg (by omega)]

theorem at_length (vector : Vector) : vector.at_ vector.data.length = none := by
  rw [at_natCast, List.getElem?_eq_none (Nat.le_refl _)]
  rfl

theorem add_cases (vector : Vector) (element : ServicePtr) (memory : Bool) :
    vector.add element memory = (vector, -1) ∨
      ∃ place : Nat, (vector.add element memory).2 = place ∧ vector.at_ place = none ∧
        ∀ index : Int, (vector.add element memory).1.at_ index =
          if index = place then some element else vector.at_ index := by
  rw [add]
  split
  · cases found : vector.released with
    | some place =>
      have empty : vector.data[place]? = some none := by
        simpa using List.find?_some found
      refine Or.inr ⟨place, rfl, by rw [at_natCast, empty]; rfl, fun index => ?_⟩
      exact at_swap (List.getElem?_eq_some_iff.mp empty).1 index
    | none =>
      cases memory with
      | false => exact Or.inl rfl
      | true => exact Or.inr ⟨_, rfl, vector.at_length, at_append element⟩
  · exact Or.inr ⟨_, rfl, vector.at_length, at_append element⟩

end Vector

/-! ### Tasks that have registered services only -/

/-- The last service of a task is registered, under the service id of its message if it was found
for it, and the requests carry services that are registered under their service id. -/
structure TaskPool.Fresh (services : Vector) (pool : TaskPool) : Prop where
  serviceImpl : ∀ service, pool.serviceImpl = some service → ∃ id, services.at_ id = some service
  corrected : ∀ exchange, pool.phase.corrected? = some exchange →
    ∀ service, pool.serviceImpl = some service → services.at_ exchange.serviceId = some service
  exchange : ∀ exchange, pool.phase.exchange = some exchange →
    ∀ service, exchange.service = some service → services.at_ exchange.serviceId = some service
  queue : ∀ exchange ∈ pool.queue,
    ∀ service, exchange.service = some service → services.at_ exchange.serviceId = some service

/-- Services know the id they are registered under, and all that can be used is registered. -/
structure Sound (samgr : SamgrLite) : Prop where
  serviceId : ∀ id service, samgr.services.at_ id = some service →
    (samgr.heap service).serviceId = id
  initServices : ∀ service ∈ samgr.initServices, ∃ id, samgr.services.at_ id = some service
  pools : ∀ (pool : PoolPtr) (one : TaskPool), samgr.pools[pool]? = some one →
    one.stopped = true ∨ one.Fresh samgr.services

section Rules

variable {samgr next : SamgrLite} {services others : Vector} {pool : TaskPool}

theorem TaskPool.Fresh.mono (fresh : pool.Fresh services)
    (kept : ∀ id service, pool.holds service = true → services.at_ id = some service →
      others.at_ id = some service) : pool.Fresh others := by
  have last (service : ServicePtr) (last : pool.serviceImpl = some service) :
      pool.holds service = true := by
    rw [TaskPool.holds, last]
    simp
  have carried (exchange : Exchange) (service : ServicePtr)
      (member : pool.phase.exchange = some exchange ∨ exchange ∈ pool.queue)
      (carries : exchange.service = some service) : pool.holds service = true := by
    rw [TaskPool.holds, Bool.or_eq_true_iff]
    rcases member with current | queued
    · rw [current, any_some, carries]
      simp
    · exact Or.inr (any_eq_true.mpr ⟨exchange, queued, decide_eq_true carries⟩)
  refine ⟨fun service found => ?_, fun exchange current service found => ?_,
    fun exchange current service found => ?_, fun exchange queued service found => ?_⟩
  · obtain ⟨id, registered⟩ := fresh.serviceImpl service found
    exact ⟨id, kept id service (last service found) registered⟩
  · exact kept _ service (last service found) (fresh.corrected exchange current service found)
  · exact kept _ service (carried exchange service (Or.inl current) found)
      (fresh.exchange exchange current service found)
  · exact kept _ service (carried exchange service (Or.inr queued) found)
      (fresh.queue exchange queued service found)

theorem Sound.modifyService (sound : Sound samgr) (service : ServicePtr)
    {change : ServiceImpl → ServiceImpl}
    (keeps : ∀ impl : ServiceImpl, (change impl).serviceId = impl.serviceId) :
    Sound (samgr.modifyService service change) := by
  refine ⟨fun id other found => ?_, sound.initServices, sound.pools⟩
  have before := sound.serviceId id other found
  rw [SamgrLite.modifyService]
  dsimp only
  by_cases same : other = service
  · subst same
    rw [Function.update_self, keeps, before]
  · rw [Function.update_of_ne same, before]

theorem Sound.modifyPool (sound : Sound samgr) (pool : PoolPtr) {change : TaskPool → TaskPool}
    (keeps : ∀ one, samgr.pools[pool]? = some one →
      one.stopped = true ∨ one.Fresh samgr.services →
        (change one).stopped = true ∨ (change one).Fresh samgr.services) :
    Sound (samgr.modifyPool pool change) := by
  refine ⟨sound.serviceId, sound.initServices, fun other one found => ?_⟩
  rw [SamgrLite.modifyPool, List.getElem?_modify] at found
  obtain ⟨before, before_, rfl⟩ := map_eq_some_iff.mp found
  by_cases same : pool = other
  · subst same
    rw [if_pos rfl]
    exact keeps before before_ (sound.pools pool before before_)
  · rw [if_neg same]
    exact sound.pools other before before_

theorem TaskPool.stopped_iff (pool : TaskPool) : pool.stopped = true ↔
      pool.phase = .exited ∨ pool.phase = .idle ∧ pool.queue.head? = some .exit := by
  rw [TaskPool.stopped, Bool.or_eq_true_iff, Bool.and_eq_true_iff, decide_eq_true_iff,
    decide_eq_true_iff, decide_eq_true_iff]

theorem TaskPool.stopped_append (stopped : pool.stopped = true) (exchange : Exchange) :
    TaskPool.stopped { pool with queue := pool.queue ++ [exchange] } = true := by
  rw [TaskPool.stopped_iff] at stopped ⊢
  refine stopped.imp_right fun ⟨idle, first⟩ => ⟨idle, ?_⟩
  rw [List.head?_append, first]
  rfl

theorem TaskPool.Fresh.append (fresh : pool.Fresh services) {exchange : Exchange}
    (registered : ∀ service, exchange.service = some service →
      services.at_ exchange.serviceId = some service) :
    TaskPool.Fresh services { pool with queue := pool.queue ++ [exchange] } := by
  refine ⟨fresh.serviceImpl, fresh.corrected, fresh.exchange, fun other queued => ?_⟩
  rcases mem_append.mp queued with before | last
  · exact fresh.queue other before
  · obtain rfl := mem_singleton.mp last
    exact registered

theorem Sound.queuePut (sound : Sound samgr) (pool : PoolPtr) {exchange : Exchange}
    (registered : ∀ service, exchange.service = some service →
      samgr.services.at_ exchange.serviceId = some service) :
    Sound (samgr.queuePut pool exchange) := by
  refine sound.modifyPool pool fun one _ before => ?_
  split
  · exact before.imp (fun stopped => TaskPool.stopped_append stopped exchange)
      fun fresh => fresh.append registered
  · exact before

theorem TaskPool.Fresh.move (fresh : pool.Fresh services) {serviceImpl : Option ServicePtr}
    {phase : Phase} (same : serviceImpl = pool.serviceImpl)
    (exchange : ∀ exchange, phase.exchange = some exchange → pool.phase.exchange = some exchange)
    (corrected : ∀ exchange, phase.corrected? = some exchange →
      pool.phase.corrected? = some exchange) :
    TaskPool.Fresh services { pool with serviceImpl := serviceImpl, phase := phase } := by
  subst same
  exact ⟨fresh.serviceImpl, fun one found => fresh.corrected one (corrected one found),
    fun one found => fresh.exchange one (exchange one found), fresh.queue⟩

theorem SamgrLite.task_eq_some {place : PoolPtr} {phase : Phase} {serviceImpl : Option ServicePtr}
    (found : samgr.task place = some (phase, serviceImpl)) :
    ∃ one, samgr.pools[place]? = some one ∧ one.phase = phase ∧ one.serviceImpl = serviceImpl := by
  obtain ⟨one, one_, equal⟩ := map_eq_some_iff.mp found
  exact ⟨one, one_, Prod.mk.inj equal⟩

theorem Sound.fresh (sound : Sound samgr) {place : PoolPtr} {phase : Phase}
    {serviceImpl : Option ServicePtr} (found : samgr.task place = some (phase, serviceImpl))
    (idle : phase ≠ .idle) (exited : phase ≠ .exited) :
    ∃ one : TaskPool, samgr.pools[place]? = some one ∧ one.phase = phase ∧
      one.serviceImpl = serviceImpl ∧ one.Fresh samgr.services := by
  obtain ⟨one, one_, phase_, serviceImpl_⟩ := SamgrLite.task_eq_some found
  refine ⟨one, one_, phase_, serviceImpl_, (sound.pools place one one_).resolve_left ?_⟩
  rw [TaskPool.stopped_iff, phase_]
  rintro (at_ | ⟨at_, _⟩)
  · exact exited at_
  · exact idle at_

theorem Sound.setTask (sound : Sound samgr) {place : PoolPtr} {before after : Phase}
    {serviceImpl : Option ServicePtr} (found : samgr.task place = some (before, serviceImpl))
    (idle : before ≠ .idle) (exited : before ≠ .exited)
    (exchange : ∀ exchange, after.exchange = some exchange → before.exchange = some exchange)
    (corrected : ∀ exchange, after.corrected? = some exchange →
      before.corrected? = some exchange) : Sound (samgr.setTask place serviceImpl after) := by
  obtain ⟨one, one_, phase_, serviceImpl_, fresh⟩ := sound.fresh found idle exited
  refine sound.modifyPool place fun other other_ _ => Or.inr ?_
  obtain rfl := some_inj.mp (one_.symm.trans other_)
  exact fresh.move serviceImpl_.symm (phase_ ▸ exchange) (phase_ ▸ corrected)

end Rules

/-! ### The steps -/

section Steps

variable {samgr next : SamgrLite} {place : PoolPtr}

theorem SamgrLite.getServiceByID_eq_some {serviceId : Int} {service : ServicePtr}
    (found : samgr.getServiceByID serviceId = some service) :
    samgr.services.at_ serviceId = some service := by
  rw [SamgrLite.getServiceByID] at found
  split at found
  · cases found
  · exact found

theorem Sound.correctServiceImpl (sound : Sound samgr) {exchange : Exchange}
    {serviceImpl : Option ServicePtr} {service : ServicePtr}
    (last : ∀ service, serviceImpl = some service → ∃ id, samgr.services.at_ id = some service)
    (answers : ∀ serviceId, exchange = .ack serviceId → ∀ service, serviceImpl = some service →
      (samgr.heap service).serviceId = serviceId)
    (found : samgr.correctServiceImpl exchange serviceImpl = some service) :
    samgr.services.at_ exchange.serviceId = some service := by
  have same (kept : serviceImpl = some service)
      (id_ : (samgr.heap service).serviceId = exchange.serviceId) :
      samgr.services.at_ exchange.serviceId = some service := by
    obtain ⟨id, registered⟩ := last service kept
    rw [← id_, sound.serviceId id service registered, registered]
  have looked (found : (if serviceImpl.all fun service =>
        (samgr.heap service).serviceId ≠ exchange.serviceId then
        samgr.getServiceByID exchange.serviceId else serviceImpl) = some service) :
      samgr.services.at_ exchange.serviceId = some service := by
    split at found
    · exact SamgrLite.getServiceByID_eq_some found
    next kept =>
    refine same found ?_
    rw [found] at kept
    simpa using kept
  cases exchange with
  | ack serviceId => exact same found (answers serviceId rfl service found)
  | request serviceId => exact looked found
  | direct serviceId => exact looked found
  | initRequest serviceId one => exact looked found
  | exit => exact looked found

theorem Sound.correct (sound : Sound samgr) {exchange : Exchange} {serviceImpl : Option ServicePtr}
    (found : samgr.task place = some (.received exchange, serviceImpl))
    (answers : ∀ serviceId, exchange = .ack serviceId → ∀ service, serviceImpl = some service →
      (samgr.heap service).serviceId = serviceId) :
    Sound (samgr.setTask place (samgr.correctServiceImpl exchange serviceImpl)
      (.corrected exchange)) := by
  obtain ⟨one, one_, phase_, serviceImpl_, fresh⟩ := sound.fresh found nofun nofun
  refine sound.modifyPool place fun other other_ _ => Or.inr ?_
  obtain rfl := some_inj.mp (one_.symm.trans other_)
  have registered (service : ServicePtr)
      (corrected : samgr.correctServiceImpl exchange serviceImpl = some service) :
      samgr.services.at_ exchange.serviceId = some service :=
    sound.correctServiceImpl (serviceImpl_ ▸ fresh.serviceImpl) answers corrected
  refine ⟨fun service corrected => ⟨_, registered service corrected⟩, fun same same_ => ?_,
    fun same same_ => ?_, fresh.queue⟩
  · obtain rfl := some_inj.mp same_
    exact registered
  · obtain rfl := some_inj.mp same_
    exact fresh.exchange _ (by rw [phase_]; rfl)

theorem Sound.receive (sound : Sound samgr) {exchange : Exchange} {queue : List Exchange}
    {queueSize : Nat} {ref : Int} {serviceImpl : Option ServicePtr} (found : samgr.pools[place]? =
      some ⟨exchange :: queue, queueSize, ref, true, serviceImpl, .idle⟩) :
    Sound (samgr.modifyPool place fun _ => ⟨queue, queueSize, ref, true, serviceImpl,
      if exchange = .exit then .exited else .received exchange⟩) := by
  refine sound.modifyPool place fun one one_ before => ?_
  obtain rfl := some_inj.mp (found.symm.trans one_)
  by_cases exit : exchange = .exit
  · exact Or.inl ((TaskPool.stopped_iff _).mpr (Or.inl (if_pos exit)))
  rw [if_neg exit]
  have fresh := before.resolve_left fun stopped => by
    rcases (TaskPool.stopped_iff _).mp stopped with exited | ⟨_, first⟩
    · cases exited
    · exact exit (some_inj.mp first)
  refine Or.inr ⟨fresh.serviceImpl, fun other other_ => ?_, fun other other_ => ?_,
    fun other queued => fresh.queue other (mem_cons_of_mem _ queued)⟩
  · cases other_
  · obtain rfl := some_inj.mp other_
    exact fresh.queue _ mem_cons_self

theorem Sound.work (sound : Sound samgr) (serviceImpl : Option ServicePtr) (before after : Inited) :
    Sound (samgr.work serviceImpl before after) := by
  cases serviceImpl with
  | none => exact sound
  | some service =>
    change Sound (samgr.modifyService service fun one =>
      if one.inited = before then { one with inited := after } else one)
    refine sound.modifyService service fun impl => ?_
    split
    · rfl
    · rfl

theorem SamgrLite.task_work (samgr : SamgrLite) (serviceImpl : Option ServicePtr)
    (before after : Inited) (place : PoolPtr) :
    (samgr.work serviceImpl before after).task place = samgr.task place := by
  cases serviceImpl with
  | none => rfl
  | some service => rfl

theorem Sound.registerService (sound : Sound samgr) {name : String} {address : ServicePtr}
    {memory : Bool} (free : some address ∉ samgr.services.data) :
    Sound (samgr.registerService name address memory) := by
  have other (id : Int) (service : ServicePtr) (found : samgr.services.at_ id = some service) :
      service ≠ address := by
    rintro rfl
    obtain ⟨place, _, found⟩ := Vector.at_eq_some found
    exact free (mem_of_getElem? found)
  rw [SamgrLite.registerService]
  split
  · exact sound
  split
  · exact sound
  rcases samgr.services.add_cases address memory with failed | ⟨place, place_, empty, added⟩
  · rw [failed]
    refine ⟨fun id service found => ?_, sound.initServices, sound.pools⟩
    dsimp only at found ⊢
    rw [Function.update_of_ne (other id service found), sound.serviceId id service found]
  · have kept (id : Int) (service : ServicePtr) (found : samgr.services.at_ id = some service) :
        (samgr.services.add address memory).1.at_ id = some service := by
      rw [added, if_neg, found]
      rintro rfl
      rw [empty] at found
      cases found
    refine ⟨fun id service found => ?_, fun service listed => ?_, fun pool one one_ => ?_⟩
    · dsimp only at found ⊢
      rw [added] at found
      split at found
      · next here =>
        obtain rfl := some_inj.mp found
        rw [Function.update_self, here]
        exact place_
      · rw [Function.update_of_ne (other id service found), sound.serviceId id service found]
    · obtain ⟨id, found⟩ := sound.initServices service listed
      exact ⟨id, kept id service found⟩
    · exact (sound.pools pool one one_).imp_right fun fresh =>
        fresh.mono fun id service _ found => kept id service found

/-- What `SAMGR_ReleaseTaskPool` does to the pool. -/
def TaskPool.release (pool : TaskPool) : TaskPool :=
  if pool.ref = 1 ∧ pool.queue.length < pool.queueSize then
    { pool with ref := pool.ref - 1, queue := pool.queue ++ [.exit] }
  else { pool with ref := pool.ref - 1 }

theorem SamgrLite.releaseTaskPool_pools (samgr : SamgrLite) (pool place : PoolPtr) :
    (samgr.releaseTaskPool (some pool)).pools[place]? =
      (samgr.pools[place]?).map fun one => if pool = place then one.release else one := by
  have released : samgr.releaseTaskPool (some pool) =
      if ((samgr.pools[pool]?).any fun one => one.ref = 1) = true then
        (samgr.modifyPool pool fun one => { one with ref := one.ref - 1 }).queuePut pool .exit
      else samgr.modifyPool pool fun one => { one with ref := one.ref - 1 } := by
    rw [SamgrLite.releaseTaskPool]
    rw [SamgrLite.modifyPool, List.getElem?_modify]
    cases samgr.pools[pool]? with
    | none => rfl
    | some one => simp [Int.sub_eq_zero]
  rw [released]
  by_cases same : pool = place
  · subst same
    cases found : samgr.pools[pool]? with
    | none => simp [found, SamgrLite.modifyPool]
    | some one =>
      rw [map_some, TaskPool.release]
      by_cases last : one.ref = 1
      · simp [last, SamgrLite.queuePut, SamgrLite.modifyPool, found]
      · simp [last, SamgrLite.modifyPool, found]
  · split
    · simp [SamgrLite.queuePut, SamgrLite.modifyPool, same]
    · simp [SamgrLite.modifyPool, same]

theorem SamgrLite.releaseTaskPool_some {taskPool : Option PoolPtr} {one : TaskPool}
    (found : (samgr.releaseTaskPool taskPool).pools[place]? = some one) :
    ∃ before, samgr.pools[place]? = some before ∧
      one = if taskPool = some place then before.release else before := by
  cases taskPool with
  | none => exact ⟨one, found, (if_neg (some_ne_none place).symm).symm⟩
  | some pool =>
    rw [SamgrLite.releaseTaskPool_pools] at found
    obtain ⟨before, before_, rfl⟩ := map_eq_some_iff.mp found
    exact ⟨before, before_, by simp only [some_inj]⟩

theorem SamgrLite.releaseTaskPool_rest (samgr : SamgrLite) (taskPool : Option PoolPtr) :
    (samgr.releaseTaskPool taskPool).services = samgr.services ∧
      (samgr.releaseTaskPool taskPool).heap = samgr.heap ∧
        (samgr.releaseTaskPool taskPool).initServices = samgr.initServices := by
  cases taskPool with
  | none => exact ⟨rfl, rfl, rfl⟩
  | some pool =>
    rw [SamgrLite.releaseTaskPool]
    split
    · exact ⟨rfl, rfl, rfl⟩
    · exact ⟨rfl, rfl, rfl⟩

theorem SamgrLite.unregistered_eq_some {name : String} {found : Nat × ServicePtr}
    (found_ : samgr.unregistered name = some found) :
    samgr.services.at_ found.1 = some found.2 := by
  obtain ⟨place, _, taken⟩ := bind_eq_some_iff.mp found_
  obtain ⟨service, at_, taken⟩ := bind_eq_some_iff.mp taken
  split at taken
  · cases taken
  · obtain rfl := some_inj.mp taken
    exact at_

theorem TaskPool.stopped_release {pool : TaskPool} (stopped : pool.stopped = true) :
    pool.release.stopped = true := by
  rw [TaskPool.release]
  split
  · exact @TaskPool.stopped_append { pool with ref := pool.ref - 1 } stopped .exit
  · exact stopped

theorem TaskPool.Fresh.release {services : Vector} {pool : TaskPool} (fresh : pool.Fresh services) :
    pool.release.Fresh services := by
  have counted : TaskPool.Fresh services { pool with ref := pool.ref - 1 } :=
    ⟨fresh.serviceImpl, fresh.corrected, fresh.exchange, fresh.queue⟩
  rw [TaskPool.release]
  split
  · exact counted.append fun service none => absurd none.symm (some_ne_none service)
  · exact counted

theorem SamgrLite.stops_release {service : ServicePtr} {one : TaskPool}
    (stops : samgr.stops service place one = true) :
    (samgr.heap service).taskPool = some place ∧ one.release.stopped = true := by
  simp only [SamgrLite.stops, Bool.and_eq_true, decide_eq_true_eq, List.isEmpty_iff] at stops
  obtain ⟨⟨⟨⟨idle, empty⟩, room⟩, last⟩, taskPool⟩ := stops
  refine ⟨taskPool, (TaskPool.stopped_iff _).mpr (Or.inr ?_)⟩
  rw [TaskPool.release, if_pos ⟨last, by rw [empty]; exact room⟩]
  exact ⟨idle, by rw [empty]; rfl⟩

section

variable (sound : Sound samgr)
include sound

theorem Sound.unregisterService {name : String}
    (unused : ∀ found, samgr.unregistered name = some found → samgr.unused found.2 = true) :
    Sound (samgr.unregisterService name) := by
  rw [SamgrLite.unregisterService]
  cases found : samgr.unregistered name with
  | none => exact sound
  | some taken =>
    obtain ⟨place, service⟩ := taken
    have at_ : samgr.services.at_ place = some service := SamgrLite.unregistered_eq_some found
    have free := unused _ found
    rw [SamgrLite.unused, Bool.and_eq_true_iff, decide_eq_true_iff] at free
    have there : place < samgr.services.data.length := by
      exact (List.getElem?_eq_some_iff.mp (join_eq_some_iff.mp at_)).1
    have removed := @Vector.at_swap _ _ none there
    have kept (id : Int) (other : ServicePtr) (different : other ≠ service)
        (registered : samgr.services.at_ id = some other) :
        (samgr.services.swap place none).at_ id = some other := by
      rw [removed, if_neg, registered]
      rintro rfl
      exact different (some_inj.mp (registered.symm.trans at_))
    have rest := SamgrLite.releaseTaskPool_rest
      { samgr with services := samgr.services.swap place none } (samgr.heap service).taskPool
    refine ⟨fun id other registered => ?_, fun other listed => ?_, fun pool one one_ => ?_⟩
    · rw [rest.1, removed] at registered
      rw [rest.2.1]
      split at registered
      · cases registered
      · exact sound.serviceId id other registered
    · rw [rest.2.2] at listed
      rw [rest.1]
      obtain ⟨id, registered⟩ := sound.initServices other listed
      exact ⟨id, kept id other (fun same => free.1 (same ▸ listed)) registered⟩
    · rw [rest.1]
      obtain ⟨before, before_, rfl⟩ := SamgrLite.releaseTaskPool_some one_
      have either := all_eq_true.mp free.2 pool
        (mem_range.mpr (List.getElem?_eq_some_iff.mp before_).1)
      rw [before_, all_some, Bool.or_eq_true_iff, Bool.or_eq_true_iff] at either
      have stays (stopped : before.stopped = true) :
          (if (samgr.heap service).taskPool = some pool then before.release
            else before).stopped = true := by
        split
        · exact TaskPool.stopped_release stopped
        · exact stopped
      rcases either with (free | stopped) | stops
      · refine (sound.pools pool before before_).imp stays fun fresh => ?_
        have other : before.Fresh (samgr.services.swap place none) :=
          fresh.mono fun id other holds registered => kept id other (fun same => by
            rw [← same, holds] at free
            exact Bool.false_ne_true free) registered
        split
        · exact other.release
        · exact other
      · exact Or.inl (stays stopped)
      · obtain ⟨taskPool, stopped⟩ := SamgrLite.stops_release stops
        rw [if_pos taskPool]
        exact Or.inl stopped

theorem Sound.bootstrap (chosen : ServicePtr → Bool) : Sound { samgr with
      initServices := samgr.initServices ++ samgr.services.data.reduceOption.filter chosen } := by
  refine ⟨sound.serviceId, fun service listed => ?_, sound.pools⟩
  rcases mem_append.mp listed with before | added
  · exact sound.initServices service before
  · have member := reduceOption_mem_iff.mp (mem_filter.mp added).1
    obtain ⟨place, place_⟩ := List.getElem?_of_mem member
    exact ⟨place, by rw [Vector.at_natCast, place_]; rfl⟩

theorem Sound.addTaskPool (service : ServicePtr) (found : FoundPool) :
    Sound (samgr.addTaskPool service found) := by
  unfold SamgrLite.addTaskPool
  split
  · exact sound
  cases found with
  | created queueSize shared =>
    have added : Sound (samgr.createFixedTaskPool queueSize shared) := by
      refine ⟨sound.serviceId, sound.initServices, fun pool one one_ => ?_⟩
      rw [SamgrLite.createFixedTaskPool, List.getElem?_append] at one_
      split at one_
      · exact sound.pools pool one one_
      obtain rfl := mem_singleton.mp (mem_of_getElem? one_)
      refine Or.inr ⟨?_, ?_, ?_, forall_mem_nil _⟩
      · exact fun service none => absurd none.symm (some_ne_none service)
      · exact fun exchange none => absurd none.symm (some_ne_none exchange)
      · exact fun exchange none => absurd none.symm (some_ne_none exchange)
    exact added.modifyService service fun _ => rfl
  | referenced pool =>
    refine Sound.modifyService (sound.modifyPool pool fun one _ before => ?_) service fun _ => rfl
    split
    · exact before.imp_right fun fresh =>
        ⟨fresh.serviceImpl, fresh.corrected, fresh.exchange, fresh.queue⟩
    · exact before

theorem Sound.initializeSingleService {service : ServicePtr}
    (listed : service ∈ samgr.initServices) : Sound ({ samgr with
      initServices := samgr.initServices.erase service }.initializeSingleService service) := by
  have erased : Sound { samgr with initServices := samgr.initServices.erase service } :=
    ⟨sound.serviceId, fun other still => sound.initServices other (mem_of_mem_erase still),
      sound.pools⟩
  rw [SamgrLite.initializeSingleService]
  split
  · exact erased
  next pool _ =>
  refine erased.queuePut pool fun other same => ?_
  obtain rfl := some_inj.mp same
  obtain ⟨id, registered⟩ := sound.initServices service listed
  change samgr.services.at_ (samgr.heap service).serviceId = some service
  rw [sound.serviceId id service registered, registered]

theorem Sound.step {action : Action}
    (careful_ : careful samgr action = true) (result : samgr.step action = some next) :
    Sound next := by
  cases action with
  | registerService name address memory =>
    rw [SamgrLite.step] at result
    split at result
    · cases result
    · next free =>
      obtain rfl := some_inj.mp result
      exact sound.registerService free
  | unregisterService name =>
    obtain rfl := some_inj.mp result
    refine sound.unregisterService fun found found_ => ?_
    rw [careful, found_] at careful_
    exact careful_
  | setInterfaces service defaultApi features =>
    obtain rfl := some_inj.mp result
    exact sound.modifyService service fun _ => rfl
  | bootstrap kept =>
    obtain rfl := some_inj.mp result
    exact sound.bootstrap _
  | addTaskPool service found =>
    obtain ⟨_, taken⟩ := ite_none_right_eq_some.mp result
    obtain rfl := some_inj.mp taken
    exact sound.addTaskPool service found
  | initializeSingleService service =>
    obtain ⟨listed, taken⟩ := ite_none_right_eq_some.mp result
    obtain rfl := some_inj.mp taken
    exact sound.initializeSingleService listed
  | startTaskPool pool =>
    obtain rfl := some_inj.mp result
    exact sound.modifyPool pool fun one _ before => before.imp_right fun fresh =>
      ⟨fresh.serviceImpl, fresh.corrected, fresh.exchange, fresh.queue⟩
  | send pool exchange =>
    obtain ⟨sent, taken⟩ := ite_none_right_eq_some.mp result
    obtain rfl := some_inj.mp taken
    refine sound.queuePut pool fun service carries => ?_
    cases exchange with
    | initRequest serviceId one => cases sent
    | request serviceId => cases carries
    | ack serviceId => cases carries
    | direct serviceId => cases carries
    | exit => cases carries
  | receive pool =>
    rw [SamgrLite.step] at result
    split at result
    · next found =>
      obtain rfl := some_inj.mp result
      exact sound.receive found
    · cases result
  | correct pool =>
    rw [SamgrLite.step] at result
    split at result
    · next exchange serviceImpl found =>
      obtain rfl := some_inj.mp result
      refine sound.correct found fun serviceId answer service last => ?_
      subst answer last
      rw [careful, found] at careful_
      exact of_decide_eq_true careful_
    · cases result
  | beginWork pool =>
    rw [SamgrLite.step] at result
    split at result
    · next exchange serviceImpl found =>
      obtain rfl := some_inj.mp result
      refine (sound.work serviceImpl .svcIdle .svcBusy).setTask
        ((samgr.task_work _ _ _ pool).trans found) nofun nofun
        (fun _ same => same) fun _ same => same
    · cases result
  | handle pool =>
    rw [SamgrLite.step] at result
    split at result
    · next exchange serviceImpl found =>
      obtain rfl := some_inj.mp result
      refine sound.setTask found nofun nofun (fun other same => ?_) fun other same => ?_
      · rw [Exchange.afterHandle] at same
        split at same
        · exact same
        · cases same
      · rw [Exchange.afterHandle] at same
        split at same
        · exact same
        · exact same
    · cases result
  | finishInit pool =>
    rw [SamgrLite.step] at result
    split at result
    · next exchange serviceImpl found =>
      obtain rfl := some_inj.mp result
      split
      · exact sound.setTask found nofun nofun
          (fun _ none => absurd none.symm (some_ne_none _)) fun _ same => same
      next service _ =>
      have finished : Sound (samgr.modifyService service fun one =>
          { one with inited := .svcIdle }) :=
        sound.modifyService service fun _ => rfl
      refine finished.setTask found nofun nofun (fun _ none => ?_) fun _ same => same
      cases none
    · cases result
  | endWork pool =>
    rw [SamgrLite.step] at result
    split at result
    · next exchange serviceImpl found =>
      obtain rfl := some_inj.mp result
      refine (sound.work serviceImpl .svcBusy .svcIdle).setTask
        ((samgr.task_work _ _ _ pool).trans found) nofun nofun
        (fun _ none => absurd none.symm (some_ne_none _))
        fun _ none => absurd none.symm (some_ne_none _)
    · cases result

end

end Steps

/-! ### Whole runs -/

/-- There are no services and no tasks. -/
structure Initial (samgr : SamgrLite) : Prop where
  services : samgr.services.data = []
  pools : samgr.pools = []
  initServices : samgr.initServices = []

section Runs

variable {samgr next : SamgrLite}

theorem Initial.sound (initial : Initial samgr) : Sound samgr := by
  obtain ⟨services, pools, initServices⟩ := initial
  refine ⟨fun id service found => ?_, ?_, fun pool one one_ => ?_⟩
  · obtain ⟨place, _, found⟩ := Vector.at_eq_some found
    rw [services] at found
    cases found
  · rw [initServices]
    exact forall_mem_nil _
  · rw [pools] at one_
    cases one_

theorem Sound.applied (sound : Sound samgr) {action : Action} {service : ServicePtr}
    {serviceId : Int} (applied : (service, serviceId) ∈ samgr.applied action) :
    samgr.services.at_ serviceId = some service := by
  cases action with
  | beginWork pool =>
    rw [SamgrLite.applied] at applied
    split at applied
    · next exchange last found =>
      obtain ⟨rfl, rfl⟩ := Prod.mk.inj (mem_singleton.mp applied)
      obtain ⟨one, _, phase, last_, fresh⟩ := sound.fresh found nofun nofun
      exact fresh.corrected exchange (by rw [phase]; rfl) service last_
    · cases applied
  | handle pool =>
    rw [SamgrLite.applied] at applied
    split at applied
    · next id last found =>
      obtain ⟨rfl, rfl⟩ := Prod.mk.inj (mem_singleton.mp applied)
      obtain ⟨one, _, phase, last_, fresh⟩ := sound.fresh found nofun nofun
      exact fresh.corrected (.request serviceId) (by rw [phase]; rfl) service last_
    · next id carried last found =>
      obtain ⟨rfl, rfl⟩ := Prod.mk.inj (mem_singleton.mp applied)
      obtain ⟨one, _, phase, _, fresh⟩ := sound.fresh found nofun nofun
      exact fresh.exchange (.initRequest serviceId service) (by rw [phase]; rfl) service rfl
    · cases applied
  | finishInit pool =>
    rw [SamgrLite.applied] at applied
    split at applied
    · next id carried last found =>
      obtain ⟨rfl, rfl⟩ := Prod.mk.inj (mem_singleton.mp applied)
      obtain ⟨one, _, phase, _, fresh⟩ := sound.fresh found nofun nofun
      exact fresh.exchange (.initRequest serviceId service) (by rw [phase]; rfl) service rfl
    · cases applied
  | endWork pool =>
    rw [SamgrLite.applied] at applied
    split at applied
    · next exchange last found =>
      obtain ⟨rfl, rfl⟩ := Prod.mk.inj (mem_singleton.mp applied)
      obtain ⟨one, _, phase, last_, fresh⟩ := sound.fresh found nofun nofun
      exact fresh.corrected exchange (by rw [phase]; rfl) service last_
    · cases applied
  | _ => cases applied

theorem sound_of_reachable
    (reached : Reachable SamgrLite.step (fun samgr action => careful samgr action = true) Initial
      samgr) : Sound samgr :=
  reached.invariant (fun _ initial => initial.sound)
    fun _ _ _ _ sound careful_ result => sound.step careful_ result

/-- Whatever a task does next, it applies it to services that are registered under the service id of
the message. -/
theorem applied_registered_of_reachable
    (reached : Reachable SamgrLite.step (fun samgr action => careful samgr action = true) Initial
      samgr) (action : Action) :
    ∀ use ∈ samgr.applied action, samgr.services.at_ use.2 = some use.1 :=
  fun _ applied => (sound_of_reachable reached).applied applied

end Runs

/-! ### Runs of a shared pool -/

def empty : SamgrLite :=
  ⟨⟨[], 0⟩, fun _ => ⟨"", -1, false, 0, none, .svcInit⟩, [], []⟩

theorem initial_empty : Initial empty := ⟨rfl, rfl, rfl⟩

/-- A task gets a message and processes it. -/
def processed (pool : PoolPtr) (isInit : Bool) : List Action :=
  [.receive pool, .correct pool, .beginWork pool, .handle pool] ++
    (if isInit then [.finishInit pool] else []) ++ [.endWork pool]

/-- A service with a shared task is registered and initialized. -/
def initialized : List Action :=
  [.registerService "service" 0 true, .bootstrap fun _ => true, .addTaskPool 0 (.created 25 true),
    .initializeSingleService 0, .startTaskPool 0] ++ processed 0 true

def oneMessage : List Action :=
  [.send 0 (.request 0), .receive 0, .correct 0]

/-- A service with a task of its own comes and goes, and its task stops. -/
def retired : List Action :=
  [.registerService "other" 1 true, .bootstrap (fun service => service = 1),
    .addTaskPool 1 (.created 20 false), .initializeSingleService 1, .startTaskPool 1] ++
    processed 1 true ++ [.unregisterService "other", .receive 1]

theorem applied_registered_of_reachable_sample : ∃ samgr,
    execute SamgrLite.step careful empty (initialized ++ retired ++ oneMessage) = some samgr ∧
      samgr.applied (.beginWork 0) = [(0, 0)] ∧
        ∀ use ∈ samgr.applied (.beginWork 0), samgr.services.at_ use.2 = some use.1 := by
  have runs : (execute SamgrLite.step careful empty (initialized ++ retired ++ oneMessage)).map
      (fun samgr => samgr.applied (.beginWork 0)) = some [(0, 0)] := by
    decide
  obtain ⟨samgr, result, applied⟩ := map_eq_some_iff.mp runs
  exact ⟨samgr, result, applied, applied_registered_of_reachable
    (.of_execute (fun _ _ meets => meets) _ (.start initial_empty) result) _⟩

/-- The service is unregistered while the task keeps it: `BeginWork` is applied to memory that was
freed. -/
theorem applied_unregistered : ∃ samgr, execute SamgrLite.step (fun _ _ => true) empty
        (initialized ++ [.unregisterService "service"] ++ oneMessage) = some samgr ∧
      Reachable SamgrLite.step (fun _ _ => True) Initial samgr ∧
        (samgr.step (.beginWork 0)).isSome = true ∧ (0, 0) ∈ samgr.applied (.beginWork 0) ∧
          samgr.services.at_ 0 ≠ some 0 := by
  have runs : (execute SamgrLite.step (fun _ _ => true) empty
      (initialized ++ [.unregisterService "service"] ++ oneMessage)).map
      (fun samgr => ((samgr.step (.beginWork 0)).isSome, samgr.applied (.beginWork 0),
        samgr.services.at_ 0)) = some (true, [(0, 0)], none) := by
    decide
  obtain ⟨samgr, result, state⟩ := map_eq_some_iff.mp runs
  obtain ⟨enabled, rest⟩ := Prod.mk.inj state
  obtain ⟨applied, registered⟩ := Prod.mk.inj rest
  refine ⟨samgr, result, .of_execute (fun _ _ _ => trivial) _ (.start initial_empty) result,
    enabled, ?_, ?_⟩
  · rw [applied]
    exact List.mem_singleton_self _
  · rw [registered]
    exact (some_ne_none 0).symm

end TowerSafe.TaskLoop
