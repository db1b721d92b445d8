/-
This file embeds the software timers of `los_swtmr.c` and says who owns a timer control block
over whole runs: the free list, the task that has created it, the sort link while it is ticking,
or the timer task once it has expired. A timer that runs once stays in the state of a ticking one
when it expires and is deleted by the timer task later, so this needs that the timer task does not
find it started again, and that its message had room in the handler queue.

The time is free in the model: when a tick scan comes and what it reads from the clock. Setting the
next expiration of the tick timer, the hooks and the alignment of timers, which is not configured,
are left out, and what a handler does is whatever tasks may do.
-/

import Mathlib
import TowerSafe.Library.FreeList
import TowerSafe.Library.Transition
import TowerSafe.Kernel.Scheduler

namespace TowerSafe.Swtmr

open Library List Option

/-! ### The timers -/

/-- The configuration of the timers: `LOSCFG_BASE_CORE_SWTMR_LIMIT`, which counts in a `UINT16`,
`OS_SWTMR_HANDLE_QUEUE_SIZE`, `g_sysClock` and `LOSCFG_BASE_CORE_TICK_PER_SECOND`. -/
structure Config where
  limit : Nat
  queueSize : Nat
  sysClock : UInt32
  tickPerSecond : UInt32
  positive : 0 < limit
  small : limit < 2 ^ 16

def osSwtmrMaxTimerID (config : Config) : Nat :=
  0xFFFFFFFF / config.limit * config.limit

theorem Config.limit_le (config : Config) : config.limit ≤ osSwtmrMaxTimerID config := by
  have small := config.small
  refine Nat.le_mul_of_pos_left _ (Nat.div_pos (by omega) config.positive)

def osSysTickToCycle (config : Config) (ticks : UInt32) : UInt64 :=
  ticks.toUInt64 * config.sysClock.toUInt64 / config.tickPerSecond.toUInt64

def osSortLinkInvalidTime : UInt64 := 0xFFFFFFFFFFFFFFFF

/-- The states of a timer, `OS_SWTMR_STATUS_*`. -/
inductive State where
  | unused
  | created
  | ticking
  deriving DecidableEq

/-- The modes of a timer, `LOS_SWTMR_MODE_*`; all values that `LOS_SwtmrCreate` rejects are
`opp`. -/
inductive Mode where
  | once
  | period
  | noSelfdelete
  | opp
  deriving DecidableEq

/-- The error codes of the calls. -/
inductive Errno where
  | intervalNotSuited
  | modeInvalid
  | ptrNull
  | retPtrNull
  | maxsize
  | idInvalid
  | notCreated
  | notStarted
  deriving DecidableEq

/-- What a call returns: `LOS_OK` or an error code. -/
inductive Ret where
  | ok
  | error (code : Errno)
  deriving DecidableEq

/-- `SWTMR_CTRL_S`, with the response time of its sort link node. -/
structure SwtmrCtrl where
  pstNext : Option Nat := none
  ucState : State := .unused
  ucMode : Mode := .once
  ucOverrun : UInt8 := 0
  usTimerID : Nat
  uwInterval : UInt32 := 0
  uwArg : UInt32 := 0
  pfnHandler : Option Nat := none
  startTime : UInt64 := 0
  responseTime : UInt64 := 0
  deriving DecidableEq

structure SwtmrHandlerItem where
  handler : Option Nat
  arg : UInt32
  swtmrID : Nat
  deriving DecidableEq

/-- The control blocks, the free list, the sort link and the handler queue. `failed` is set when a
list node is linked while it is linked or unlinked while it is not. -/
structure Swtmrs where
  cbArray : Nat → SwtmrCtrl
  freeList : Option Nat
  sortLink : List Nat
  handlerQueue : List SwtmrHandlerItem
  failed : Bool

namespace Swtmrs

variable (config : Config) (swtmrs : Swtmrs) (swtmr : Nat)

/-- Write fields of a control block. -/
def modify (change : SwtmrCtrl → SwtmrCtrl) : Swtmrs :=
  { swtmrs with cbArray := Function.update swtmrs.cbArray swtmr (change (swtmrs.cbArray swtmr)) }

def links (block : Nat) : Option Nat :=
  (swtmrs.cbArray block).pstNext

def osAdd2SortLink (startTime : UInt64) (waitTicks : UInt32) : Swtmrs :=
  let timed := swtmrs.modify swtmr fun block =>
    { block with responseTime := startTime + osSysTickToCycle config waitTicks }
  { timed with
    sortLink := Kernel.Sched.osAddNode2SortLink
      (fun node => some (timed.cbArray node).responseTime.toNat) swtmr swtmrs.sortLink
    failed := swtmrs.failed || decide (swtmr ∈ swtmrs.sortLink) }

def osDeleteNodeSortLink : Swtmrs :=
  { swtmrs.modify swtmr fun block => { block with responseTime := osSortLinkInvalidTime } with
    sortLink := swtmrs.sortLink.erase swtmr
    failed := swtmrs.failed || decide (swtmr ∉ swtmrs.sortLink) }

def osDeleteSortLink : Swtmrs :=
  if (swtmrs.cbArray swtmr).responseTime ≠ osSortLinkInvalidTime then
    swtmrs.osDeleteNodeSortLink swtmr
  else swtmrs

def osSwtmrStart : Swtmrs :=
  (swtmrs.modify swtmr fun block => { block with ucState := .ticking }).osAdd2SortLink config swtmr
    (swtmrs.cbArray swtmr).startTime (swtmrs.cbArray swtmr).uwInterval

def osSwtmrDelete : Swtmrs :=
  { swtmrs.modify swtmr fun block =>
      { block with
        usTimerID :=
          if block.usTimerID < osSwtmrMaxTimerID config - config.limit then
            block.usTimerID + config.limit
          else block.usTimerID % config.limit
        pstNext := swtmrs.freeList
        ucState := .unused } with
    freeList := some swtmr }

def osSwtmrStop : Swtmrs :=
  (swtmrs.osDeleteSortLink swtmr).modify swtmr fun block =>
    { block with ucState := .created, ucOverrun := 0 }

/-- `LOS_QueueWriteCopy` to the handler queue, without waiting. -/
def writeHandler (item : SwtmrHandlerItem) : Swtmrs :=
  if swtmrs.handlerQueue.length < config.queueSize then
    { swtmrs with handlerQueue := swtmrs.handlerQueue ++ [item] }
  else swtmrs

def osSwtmrTimeoutHandle : Swtmrs :=
  let block := swtmrs.cbArray swtmr
  let written := swtmrs.writeHandler config ⟨block.pfnHandler, block.uwArg, block.usTimerID⟩
  match block.ucMode with
  | .period =>
      (written.modify swtmr fun block =>
        { block with ucOverrun := block.ucOverrun + 1 }).osSwtmrStart config swtmr
  | .noSelfdelete => written.modify swtmr fun block => { block with ucState := .created }
  | _ => written

/-- The loop of `OsSwtmrScan` runs once, unless it is over. -/
def scanNext (currTime : UInt64) : Option Swtmrs :=
  match swtmrs.sortLink with
  | [] => none
  | first :: _ =>
      if (swtmrs.cbArray first).responseTime ≤ currTime then
        some (((swtmrs.modify first fun block =>
          { block with startTime := block.responseTime }).osDeleteNodeSortLink
            first).osSwtmrTimeoutHandle config first)
      else none

/-- The look-up at the start of `LOS_SwtmrStart`, `LOS_SwtmrStop` and `LOS_SwtmrDelete`. -/
def lookUp (swtmrId : Nat) : Except Errno Nat :=
  if swtmrId ≥ osSwtmrMaxTimerID config then .error .idInvalid
  else if (swtmrs.cbArray (swtmrId % config.limit)).usTimerID ≠ swtmrId then .error .notCreated
  else .ok (swtmrId % config.limit)

def losSwtmrStart (swtmrId : Nat) (currTime : UInt64) : Swtmrs × Ret :=
  let start (stopped : Swtmrs) (swtmr : Nat) : Swtmrs :=
    (stopped.modify swtmr fun block => { block with startTime := currTime }).osSwtmrStart config
      swtmr
  match swtmrs.lookUp config swtmrId with
  | .error code => (swtmrs, .error code)
  | .ok swtmr =>
      match (swtmrs.cbArray swtmr).ucState with
      | .unused => (swtmrs, .error .notCreated)
      | .ticking => (start (swtmrs.osSwtmrStop swtmr) swtmr, .ok)
      | .created => (start swtmrs swtmr, .ok)

def losSwtmrStop (swtmrId : Nat) : Swtmrs × Ret :=
  match swtmrs.lookUp config swtmrId with
  | .error code => (swtmrs, .error code)
  | .ok swtmr =>
      match (swtmrs.cbArray swtmr).ucState with
      | .unused => (swtmrs, .error .notCreated)
      | .created => (swtmrs, .error .notStarted)
      | .ticking => (swtmrs.osSwtmrStop swtmr, .ok)

def losSwtmrDelete (swtmrId : Nat) : Swtmrs × Ret :=
  match swtmrs.lookUp config swtmrId with
  | .error code => (swtmrs, .error code)
  | .ok swtmr =>
      match (swtmrs.cbArray swtmr).ucState with
      | .unused => (swtmrs, .error .notCreated)
      | .ticking => ((swtmrs.osSwtmrStop swtmr).osSwtmrDelete config swtmr, .ok)
      | .created => (swtmrs.osSwtmrDelete config swtmr, .ok)

/-- The locked part of `OsSwtmrTask` for a message: whether the handler is called, and what comes
before that. -/
def osSwtmrTask (item : SwtmrHandlerItem) : Swtmrs × Bool :=
  if item.handler = none ∨ item.swtmrID ≥ osSwtmrMaxTimerID config then (swtmrs, false)
  else
    let swtmr := item.swtmrID % config.limit
    if (swtmrs.cbArray swtmr).usTimerID ≠ item.swtmrID then (swtmrs, false)
    else if (swtmrs.cbArray swtmr).ucMode = .once then (swtmrs.osSwtmrDelete config swtmr, true)
    else (swtmrs, true)

end Swtmrs

/-! ### The calls -/

/-- The parameters of `LOS_SwtmrCreate`; `swtmrId` is whether that pointer is not `NULL`. -/
structure CreateParam where
  interval : UInt32
  mode : Mode
  handler : Option Nat
  swtmrId : Bool
  arg : UInt32
  deriving DecidableEq

/-- The checks of `LOS_SwtmrCreate`. -/
def CreateParam.check (param : CreateParam) : Ret :=
  if param.interval = 0 then .error .intervalNotSuited
  else if param.mode = .opp then .error .modeInvalid
  else if param.handler = none then .error .ptrNull
  else if param.swtmrId = false then .error .retPtrNull
  else .ok

/-- A call of `LOS_SwtmrCreate` that has taken a control block from the free list and works on it
without the lock: `filled` is whether it has written the fields and given out the identifier. -/
structure Creation where
  swtmr : Nat
  param : CreateParam
  filled : Bool
  deriving DecidableEq

/-- The timers, the calls of `LOS_SwtmrCreate` that go on, the message the timer task has read and
not yet looked up, and the time of the scan that goes on. -/
structure Machine where
  swtmrs : Swtmrs
  creations : List Creation
  took : Option SwtmrHandlerItem
  scan : Option UInt64

/-- A step of a task, of the timer task, or of the tick interrupt. -/
inductive Action where
  /-- `LOS_SwtmrCreate` up to `LOS_IntRestore`. -/
  | create (param : CreateParam)
  /-- A call of `LOS_SwtmrCreate` writes the fields of its block. -/
  | fill (index : Nat)
  /-- A call of `LOS_SwtmrCreate` resets the response time, and returns. -/
  | finish (index : Nat)
  /-- `LOS_SwtmrStart`. -/
  | start (swtmrId : Nat) (currTime : UInt64)
  /-- `LOS_SwtmrStop`. -/
  | stop (swtmrId : Nat)
  /-- `LOS_SwtmrDelete`. -/
  | delete (swtmrId : Nat)
  /-- `LOS_QueueReadCopy` of the timer task. -/
  | read
  /-- The locked part of `OsSwtmrTask`. -/
  | handle
  /-- The tick interrupt comes to `OsSwtmrScan`. -/
  | scan (currTime : UInt64)
  /-- The loop of `OsSwtmrScan` runs once, or ends. -/
  | scanNext
  deriving DecidableEq

namespace Machine

variable (config : Config) (machine : Machine)

/-- `LOS_SwtmrCreate` up to `LOS_IntRestore`. -/
def losSwtmrCreate (param : CreateParam) : Machine × Ret :=
  match param.check with
  | .error code => (machine, .error code)
  | .ok =>
      match machine.swtmrs.freeList with
      | none => (machine, .error .maxsize)
      | some swtmr =>
          ({ machine with
              swtmrs := { machine.swtmrs with freeList := machine.swtmrs.links swtmr }
              creations := ⟨swtmr, param, false⟩ :: machine.creations }, .ok)

/-- The fields that `LOS_SwtmrCreate` writes before it gives out the identifier. -/
def fill (creation : Creation) : Swtmrs :=
  machine.swtmrs.modify creation.swtmr fun block =>
    { block with
      pfnHandler := creation.param.handler
      ucMode := creation.param.mode
      uwInterval := creation.param.interval
      pstNext := none
      uwArg := creation.param.arg
      ucState := .created
      ucOverrun := 0 }

/-- What `LOS_SwtmrCreate` writes last. -/
def finish (creation : Creation) : Swtmrs :=
  machine.swtmrs.modify creation.swtmr fun block =>
    { block with responseTime := osSortLinkInvalidTime }

/-- A step while no scan goes on. -/
def stepOutside : Action → Option Machine
  | .create param => some (machine.losSwtmrCreate param).1
  | .fill index =>
      match machine.creations[index]? with
      | some creation =>
          if creation.filled then none
          else
            some { machine with
              swtmrs := machine.fill creation
              creations := machine.creations.set index { creation with filled := true } }
      | none => none
  | .finish index =>
      match machine.creations[index]? with
      | some creation =>
          if creation.filled then
            some { machine with
              swtmrs := machine.finish creation
              creations := machine.creations.eraseIdx index }
          else none
      | none => none
  | .start swtmrId currTime =>
      some { machine with swtmrs := (machine.swtmrs.losSwtmrStart config swtmrId currTime).1 }
  | .stop swtmrId =>
      some { machine with swtmrs := (machine.swtmrs.losSwtmrStop config swtmrId).1 }
  | .delete swtmrId =>
      some { machine with swtmrs := (machine.swtmrs.losSwtmrDelete config swtmrId).1 }
  | .read =>
      match machine.took, machine.swtmrs.handlerQueue with
      | none, item :: rest =>
          some { machine with
            swtmrs := { machine.swtmrs with handlerQueue := rest }
            took := some item }
      | _, _ => none
  | .handle =>
      match machine.took with
      | some item =>
          some { machine with
            swtmrs := (machine.swtmrs.osSwtmrTask config item).1
            took := none }
      | none => none
  | .scan currTime => some { machine with scan := some currTime }
  | .scanNext => none

/-- A step of the system. A scan runs with the interrupts locked. -/
def step (action : Action) : Option Machine :=
  match machine.scan with
  | none => machine.stepOutside config action
  | some currTime =>
      match action with
      | .scanNext =>
          match machine.swtmrs.scanNext config currTime with
          | some swtmrs => some { machine with swtmrs := swtmrs }
          | none => some { machine with scan := none }
      | _ => none

end Machine

/-- The control blocks after `OsSwtmrInit`. -/
def osSwtmrInit (config : Config) : Swtmrs where
  cbArray block :=
    { usTimerID := block
      pstNext := if block + 1 < config.limit then some (block + 1) else none }
  freeList := some 0
  sortLink := []
  handlerQueue := []
  failed := false

/-- The machine after `OsSwtmrInit`. -/
def Machine.init (config : Config) : Machine where
  swtmrs := osSwtmrInit config
  creations := []
  took := none
  scan := none

/-! ### Who owns a timer -/

/-- What can become of a control block. -/
inductive Role where
  | free
  | created
  | ticking
  | expired
  deriving DecidableEq

namespace Machine

variable (config : Config) (machine : Machine) (swtmr : Nat)

/-- A message of an identifier is in the handler queue, or the timer task has read it and not yet
looked it up. -/
def Awaited (swtmrID : Nat) : Prop :=
  ∃ item ∈ machine.took.toList ++ machine.swtmrs.handlerQueue,
    item.swtmrID = swtmrID ∧ item.handler.isSome = true

instance (swtmrID : Nat) : Decidable (machine.Awaited swtmrID) :=
  inferInstanceAs (Decidable (∃ item ∈ _, _ ∧ _))

/-- Whether a call of `LOS_SwtmrCreate` works on a block, and whether it has filled it. -/
def creationOf : Option Bool :=
  (machine.creations.find? fun creation => creation.swtmr = swtmr).map Creation.filled

/-- What a control block is: on the free list once, created and not linked (or taken by a call of
`LOS_SwtmrCreate` that will create it), ticking and linked once, or expired, in the mode of a timer
that runs once, and awaiting its handler. -/
def Plays : Role → Prop
  | .free => ∃ nodes, Threads machine.swtmrs.links machine.swtmrs.freeList nodes ∧
      nodes.count swtmr = 1
  | .created => swtmr ∉ machine.swtmrs.sortLink ∧
      ((machine.swtmrs.cbArray swtmr).ucState = .created ∨
        (machine.swtmrs.cbArray swtmr).ucState = .unused ∧
          machine.creationOf swtmr = some false)
  | .ticking => (machine.swtmrs.cbArray swtmr).ucState = .ticking ∧
      machine.swtmrs.sortLink.count swtmr = 1
  | .expired => (machine.swtmrs.cbArray swtmr).ucState = .ticking ∧
      (machine.swtmrs.cbArray swtmr).ucMode = .once ∧ swtmr ∉ machine.swtmrs.sortLink ∧
      machine.Awaited (machine.swtmrs.cbArray swtmr).usTimerID

/-- Every control block has one owner, the free list ends, and no block on it is linked. -/
structure InOrder : Prop where
  owned : ∀ swtmr < config.limit, ∃! role, machine.Plays swtmr role
  free : ∃ nodes, Threads machine.swtmrs.links machine.swtmrs.freeList nodes ∧ nodes.Nodup ∧
    ∀ swtmr ∈ nodes, swtmr < config.limit ∧ swtmr ∉ machine.swtmrs.sortLink
  intact : machine.swtmrs.failed = false

/-- The block that a call finds for an identifier, when it is in use. -/
def found (swtmrId : Nat) : Option Nat :=
  match machine.swtmrs.lookUp config swtmrId with
  | .ok swtmr =>
      if (machine.swtmrs.cbArray swtmr).ucState = .unused then none else some swtmr
  | .error _ => none

/-- The block that the timer task is going to delete because of a message. -/
def deletes (item : SwtmrHandlerItem) : Option Nat :=
  let swtmr := item.swtmrID % config.limit
  if item.handler = none ∨ item.swtmrID ≥ osSwtmrMaxTimerID config then none
  else if (machine.swtmrs.cbArray swtmr).usTimerID ≠ item.swtmrID then none
  else if (machine.swtmrs.cbArray swtmr).ucMode = .once then some swtmr
  else none

/-- The response time that a start from a time gives a timer is one. -/
def TimeValid (startTime : UInt64) : Prop :=
  startTime + osSysTickToCycle config (machine.swtmrs.cbArray swtmr).uwInterval ≠
    osSortLinkInvalidTime

instance (startTime : UInt64) : Decidable (machine.TimeValid config swtmr startTime) :=
  inferInstanceAs (Decidable (_ ≠ _))

end Machine

/-- No timer is started or deleted while its creation goes on; the timer task deletes no timer that
is linked, unused or being created; a timer that runs once expires only while there is room in the
handler queue, unless a message of it is still awaited; and no response time is the invalid one. -/
def InTime (config : Config) (machine : Machine) : Action → Prop
  | .start swtmrId currTime => ∀ swtmr ∈ machine.found config swtmrId,
      machine.creationOf swtmr = none ∧ machine.TimeValid config swtmr currTime
  | .delete swtmrId => ∀ swtmr ∈ machine.found config swtmrId, machine.creationOf swtmr = none
  | .handle => ∀ item ∈ machine.took, ∀ swtmr ∈ machine.deletes config item,
      (machine.swtmrs.cbArray swtmr).ucState ≠ .unused ∧ swtmr ∉ machine.swtmrs.sortLink ∧
        machine.creationOf swtmr = none
  | .scanNext => ∀ currTime ∈ machine.scan, ∀ swtmr ∈ machine.swtmrs.sortLink.head?,
      (machine.swtmrs.cbArray swtmr).responseTime ≤ currTime →
        ((machine.swtmrs.cbArray swtmr).ucMode = .once →
          machine.swtmrs.handlerQueue.length < config.queueSize ∨
            machine.Awaited (machine.swtmrs.cbArray swtmr).usTimerID) ∧
        ((machine.swtmrs.cbArray swtmr).ucMode = .period →
          machine.TimeValid config swtmr (machine.swtmrs.cbArray swtmr).responseTime)
  | _ => True

instance (config : Config) (machine : Machine) (action : Action) :
    Decidable (InTime config machine action) := by
  cases action
  case scanNext => exact Option.decidableForallMem _
  all_goals
    unfold InTime
    infer_instance

def SwtmrCtrl.Made (block : SwtmrCtrl) : Prop :=
  block.ucMode ≠ .opp ∧ block.pfnHandler.isSome = true

/-- What a control block is, with what its fields say then: whether it is on the free list, whether
it is linked, whether its creation goes on, and whether a message of it is awaited. -/
inductive Owner (block : SwtmrCtrl) (free linked : Prop) (creation : Option Bool)
    (awaited : Prop) : Prop
  | free (state : block.ucState = .unused) (on : free) (off : ¬linked) (settled : creation = none)
  | taken (state : block.ucState = .unused) (out : ¬free) (off : ¬linked)
      (creating : creation = some false)
  | filled (state : block.ucState = .created) (out : ¬free) (off : ¬linked)
      (creating : creation = some true) (made : block.Made)
  | created (state : block.ucState = .created) (out : ¬free) (off : ¬linked)
      (settled : creation = none) (made : block.Made)
      (time : block.responseTime = osSortLinkInvalidTime)
  | ticking (state : block.ucState = .ticking) (out : ¬free) (on : linked)
      (settled : creation = none) (made : block.Made)
      (time : block.responseTime ≠ osSortLinkInvalidTime)
  | expired (state : block.ucState = .ticking) (out : ¬free) (off : ¬linked)
      (settled : creation = none) (made : block.Made)
      (time : block.responseTime = osSortLinkInvalidTime) (mode : block.ucMode = .once)
      (message : awaited)

namespace Owner

variable {block : SwtmrCtrl} {free linked awaited : Prop} {creation : Option Bool}

theorem mono {free' linked' awaited' : Prop} (owner : Owner block free linked creation awaited)
    (frees : free' ↔ free) (links : linked' ↔ linked) (awaits : awaited → awaited') :
    Owner block free' linked' creation awaited' := by
  cases owner with
  | free state on off settled =>
    exact .free state (frees.mpr on) (fun is => off (links.mp is)) settled
  | taken state out off creating =>
    exact .taken state (fun is => out (frees.mp is)) (fun is => off (links.mp is)) creating
  | filled state out off creating made =>
    exact .filled state (fun is => out (frees.mp is)) (fun is => off (links.mp is)) creating made
  | created state out off settled made time =>
    exact .created state (fun is => out (frees.mp is)) (fun is => off (links.mp is)) settled made
      time
  | ticking state out on settled made time =>
    exact .ticking state (fun is => out (frees.mp is)) (links.mpr on) settled made time
  | expired state out off settled made time mode message =>
    exact .expired state (fun is => out (frees.mp is)) (fun is => off (links.mp is)) settled made
      time mode (awaits message)

end Owner

/-- Every control block has an owner: the free list is `nodes`. -/
structure Machine.Owned (config : Config) (machine : Machine) (nodes : List Nat) : Prop where
  threads : Threads machine.swtmrs.links machine.swtmrs.freeList nodes
  ids : ∀ swtmr < config.limit, (machine.swtmrs.cbArray swtmr).usTimerID % config.limit = swtmr ∧
    (machine.swtmrs.cbArray swtmr).usTimerID < osSwtmrMaxTimerID config
  owner : ∀ swtmr < config.limit, Owner (machine.swtmrs.cbArray swtmr) (swtmr ∈ nodes)
    (swtmr ∈ machine.swtmrs.sortLink) (machine.creationOf swtmr)
    (machine.Awaited (machine.swtmrs.cbArray swtmr).usTimerID)
  below : ∀ swtmr, swtmr ∈ nodes ∨ swtmr ∈ machine.swtmrs.sortLink ∨
    machine.creationOf swtmr ≠ none → swtmr < config.limit
  sorted : machine.swtmrs.sortLink.Nodup
  creating : (machine.creations.map Creation.swtmr).Nodup
  params : ∀ creation ∈ machine.creations, creation.param.check = .ok
  intact : machine.swtmrs.failed = false

/-- An operation on one timer: what it leaves of the others, and of the queue and the free list. -/
structure Swtmrs.Touches (swtmr : Nat) (before after : Swtmrs) : Prop where
  others : ∀ other, other ≠ swtmr → after.cbArray other = before.cbArray other
  linked : ∀ other, other ≠ swtmr → (other ∈ after.sortLink ↔ other ∈ before.sortLink)
  id : (after.cbArray swtmr).usTimerID = (before.cbArray swtmr).usTimerID
  links : after.links = before.links
  freeList : after.freeList = before.freeList
  messages : ∀ item ∈ before.handlerQueue, item ∈ after.handlerQueue

/-! ### What the operations touch -/

namespace Swtmrs

variable {config : Config} {swtmrs before middle after : Swtmrs} {swtmr : Nat}

theorem Touches.trans (first : Touches swtmr before middle) (second : Touches swtmr middle after) :
    Touches swtmr before after where
  others other different := (second.others other different).trans (first.others other different)
  linked other different := (second.linked other different).trans (first.linked other different)
  id := second.id.trans first.id
  links := second.links.trans first.links
  freeList := second.freeList.trans first.freeList
  messages item member := second.messages item (first.messages item member)

theorem modify_self (change : SwtmrCtrl → SwtmrCtrl) :
    (swtmrs.modify swtmr change).cbArray swtmr = change (swtmrs.cbArray swtmr) :=
  Function.update_self ..

theorem modify_touches {change : SwtmrCtrl → SwtmrCtrl}
    (same : (change (swtmrs.cbArray swtmr)).usTimerID = (swtmrs.cbArray swtmr).usTimerID)
    (link : (change (swtmrs.cbArray swtmr)).pstNext = (swtmrs.cbArray swtmr).pstNext) :
    Touches swtmr swtmrs (swtmrs.modify swtmr change) where
  others other different := Function.update_of_ne different _ _
  linked _ _ := .rfl
  id := by rw [modify_self, same]
  links := by
    funext block
    by_cases here : block = swtmr
    · rw [here, Swtmrs.links, modify_self, link, Swtmrs.links]
    · exact congrArg SwtmrCtrl.pstNext (Function.update_of_ne here _ _)
  freeList := rfl
  messages _ := id

theorem osAdd2SortLink_perm (startTime : UInt64) (waitTicks : UInt32) :
    (swtmrs.osAdd2SortLink config swtmr startTime waitTicks).sortLink.Perm
      (swtmr :: swtmrs.sortLink) := by
  unfold osAdd2SortLink
  dsimp only
  exact Kernel.Sched.osAddNode2SortLink_perm _ _ _

theorem osAdd2SortLink_touches (startTime : UInt64) (waitTicks : UInt32) :
    Touches swtmr swtmrs (swtmrs.osAdd2SortLink config swtmr startTime waitTicks) := by
  have timed := @modify_touches swtmrs swtmr (fun block =>
    { block with responseTime := startTime + osSysTickToCycle config waitTicks }) rfl rfl
  refine ⟨timed.others, fun other different => ?_, timed.id, timed.links, rfl, fun _ => id⟩
  refine (osAdd2SortLink_perm _ _).mem_iff.trans ?_
  rw [mem_cons]
  exact or_iff_right different

theorem osDeleteNodeSortLink_touches :
    Touches swtmr swtmrs (swtmrs.osDeleteNodeSortLink swtmr) := by
  have timed := @modify_touches swtmrs swtmr (fun block =>
    { block with responseTime := osSortLinkInvalidTime }) rfl rfl
  refine ⟨timed.others, fun other different => ?_, timed.id, timed.links, rfl, fun _ => id⟩
  exact mem_erase_of_ne different

theorem osDeleteSortLink_touches : Touches swtmr swtmrs (swtmrs.osDeleteSortLink swtmr) := by
  rw [osDeleteSortLink]
  split
  · exact osDeleteNodeSortLink_touches
  · exact ⟨fun _ _ => rfl, fun _ _ => .rfl, rfl, rfl, rfl, fun _ => id⟩

theorem osSwtmrStart_touches : Touches swtmr swtmrs (swtmrs.osSwtmrStart config swtmr) :=
  (modify_touches rfl rfl).trans (osAdd2SortLink_touches _ _)

theorem osSwtmrStop_touches : Touches swtmr swtmrs (swtmrs.osSwtmrStop swtmr) :=
  osDeleteSortLink_touches.trans (modify_touches rfl rfl)

theorem writeHandler_touches (item : SwtmrHandlerItem) :
    Touches swtmr swtmrs (swtmrs.writeHandler config item) := by
  rw [writeHandler]
  split
  · exact ⟨fun _ _ => rfl, fun _ _ => .rfl, rfl, rfl, rfl,
      fun _ member => mem_append_left _ member⟩
  · exact ⟨fun _ _ => rfl, fun _ _ => .rfl, rfl, rfl, rfl, fun _ => id⟩

theorem osSwtmrTimeoutHandle_touches :
    Touches swtmr swtmrs (swtmrs.osSwtmrTimeoutHandle config swtmr) := by
  rw [osSwtmrTimeoutHandle]
  split
  · exact (writeHandler_touches _).trans ((modify_touches rfl rfl).trans osSwtmrStart_touches)
  · exact (writeHandler_touches _).trans (modify_touches rfl rfl)
  · exact writeHandler_touches _

theorem writeHandler_frame (config : Config) (swtmrs : Swtmrs) (item : SwtmrHandlerItem) :
    (swtmrs.writeHandler config item).cbArray = swtmrs.cbArray ∧
      (swtmrs.writeHandler config item).sortLink = swtmrs.sortLink ∧
      (swtmrs.writeHandler config item).failed = swtmrs.failed := by
  rw [writeHandler]
  split
  · exact ⟨rfl, rfl, rfl⟩
  · exact ⟨rfl, rfl, rfl⟩

theorem osSwtmrStart_self :
    (swtmrs.osSwtmrStart config swtmr).cbArray swtmr =
        { swtmrs.cbArray swtmr with
          ucState := .ticking
          responseTime := (swtmrs.cbArray swtmr).startTime +
            osSysTickToCycle config (swtmrs.cbArray swtmr).uwInterval } ∧
      (swtmrs.osSwtmrStart config swtmr).sortLink.Perm (swtmr :: swtmrs.sortLink) ∧
      ((swtmrs.osSwtmrStart config swtmr).failed = true ↔
        swtmrs.failed = true ∨ swtmr ∈ swtmrs.sortLink) := by
  refine ⟨by simp [osSwtmrStart, osAdd2SortLink, modify], osAdd2SortLink_perm _ _, ?_⟩
  · rw [osSwtmrStart, osAdd2SortLink]
    rw [Bool.or_eq_true, decide_eq_true_iff]
    exact .rfl

theorem lookUp_lt {swtmrId : Nat} (looks : swtmrs.lookUp config swtmrId = .ok swtmr) :
    swtmr < config.limit := by
  rw [lookUp] at looks
  split at looks
  · exact absurd looks nofun
  split at looks
  · exact absurd looks nofun
  · rw [← Except.ok.inj looks]
    exact Nat.mod_lt _ config.positive

theorem osSwtmrDelete_self :
    (swtmrs.osSwtmrDelete config swtmr).cbArray swtmr =
      { swtmrs.cbArray swtmr with
        usTimerID :=
          if (swtmrs.cbArray swtmr).usTimerID < osSwtmrMaxTimerID config - config.limit then
            (swtmrs.cbArray swtmr).usTimerID + config.limit
          else (swtmrs.cbArray swtmr).usTimerID % config.limit
        pstNext := swtmrs.freeList
        ucState := .unused } := by
  rw [osSwtmrDelete]
  rw [modify_self]

theorem osSwtmrStop_self (sorted : swtmrs.sortLink.Nodup)
    (time : (swtmrs.cbArray swtmr).responseTime ≠ osSortLinkInvalidTime ↔
      swtmr ∈ swtmrs.sortLink) : (swtmrs.osSwtmrStop swtmr).cbArray swtmr =
        { swtmrs.cbArray swtmr with
          ucState := .created, ucOverrun := 0, responseTime := osSortLinkInvalidTime } ∧
      (swtmrs.osSwtmrStop swtmr).sortLink.Nodup ∧ swtmr ∉ (swtmrs.osSwtmrStop swtmr).sortLink ∧
      (swtmrs.osSwtmrStop swtmr).failed = swtmrs.failed := by
  by_cases on : swtmr ∈ swtmrs.sortLink
  · rw [osSwtmrStop, osDeleteSortLink, if_pos (time.mpr on)]
    refine ⟨by simp [osDeleteNodeSortLink, modify], sorted.erase _, sorted.not_mem_erase, ?_⟩
    simp [osDeleteNodeSortLink, modify, on]
  have invalid := not_not.mp fun valid => on (time.mp valid)
  rw [osSwtmrStop, osDeleteSortLink, if_neg (not_not.mpr invalid)]
  refine ⟨?_, sorted, on, rfl⟩
  simp [modify, ← invalid]

end Swtmrs

namespace Machine.Owned

variable {config : Config} {machine next : Machine} {nodes nodes' : List Nat} {swtmr : Nat}

section

variable (owned : machine.Owned config nodes)
include owned

theorem change (inside : swtmr < config.limit)
    (threads : Threads next.swtmrs.links next.swtmrs.freeList nodes')
    (others : ∀ other, other ≠ swtmr →
      next.swtmrs.cbArray other = machine.swtmrs.cbArray other ∧
      (other ∈ nodes' ↔ other ∈ nodes) ∧
      (other ∈ next.swtmrs.sortLink ↔ other ∈ machine.swtmrs.sortLink) ∧
      next.creationOf other = machine.creationOf other)
    (messages : ∀ other < config.limit, other ≠ swtmr →
      machine.Awaited (machine.swtmrs.cbArray other).usTimerID →
        next.Awaited (machine.swtmrs.cbArray other).usTimerID)
    (id : (next.swtmrs.cbArray swtmr).usTimerID % config.limit = swtmr ∧
      (next.swtmrs.cbArray swtmr).usTimerID < osSwtmrMaxTimerID config)
    (owner : Owner (next.swtmrs.cbArray swtmr) (swtmr ∈ nodes') (swtmr ∈ next.swtmrs.sortLink)
      (next.creationOf swtmr) (next.Awaited (next.swtmrs.cbArray swtmr).usTimerID))
    (sorted : next.swtmrs.sortLink.Nodup)
    (creating : (next.creations.map Creation.swtmr).Nodup)
    (params : ∀ creation ∈ next.creations, creation.param.check = .ok)
    (intact : next.swtmrs.failed = false) : next.Owned config nodes' where
  threads := threads
  ids other low := by
    by_cases same : other = swtmr
    · rw [same]
      exact id
    · rw [(others other same).1]
      exact owned.ids other low
  owner other low := by
    by_cases same : other = swtmr
    · rw [same]
      exact owner
    · obtain ⟨block, free, linked, creation⟩ := others other same
      rw [block, creation]
      exact (owned.owner other low).mono free linked (messages other low same)
  below other known := by
    by_cases same : other = swtmr
    · rw [same]
      exact inside
    · obtain ⟨-, free, linked, creation⟩ := others other same
      rw [free, linked, creation] at known
      exact owned.below other known
  sorted := sorted
  creating := creating
  params := params
  intact := intact

theorem touch {after : Swtmrs}
    (touches : Swtmrs.Touches swtmr machine.swtmrs after) (inside : swtmr < config.limit)
    (owner : Owner (after.cbArray swtmr) (swtmr ∈ nodes) (swtmr ∈ after.sortLink)
      (machine.creationOf swtmr)
      (Machine.Awaited { machine with swtmrs := after } (after.cbArray swtmr).usTimerID))
    (sorted : after.sortLink.Nodup) (intact : after.failed = false) :
    Machine.Owned config { machine with swtmrs := after } nodes := by
  refine owned.change inside ?_ (fun other different => ⟨touches.others other different, .rfl,
    touches.linked other different, rfl⟩) (fun other _ _ awaited => ?_) ?_ owner sorted
    owned.creating owned.params intact
  · rw [touches.links, touches.freeList]
    exact owned.threads
  · obtain ⟨item, member, same⟩ := awaited
    refine ⟨item, ?_, same⟩
    rcases mem_append.mp member with taken | queued
    · exact mem_append_left _ taken
    · exact mem_append_right _ (touches.messages item queued)
  · rw [touches.id]
    exact owned.ids swtmr inside

/-- A timer that is not on the free list and whose creation is over: what its response time says. -/
theorem time_iff (inside : swtmr < config.limit)
    (used : (machine.swtmrs.cbArray swtmr).ucState ≠ .unused)
    (settled : machine.creationOf swtmr = none) :
    ((machine.swtmrs.cbArray swtmr).responseTime ≠ osSortLinkInvalidTime ↔
        swtmr ∈ machine.swtmrs.sortLink) ∧
      swtmr ∉ nodes ∧ (machine.swtmrs.cbArray swtmr).Made ∧
      ((machine.swtmrs.cbArray swtmr).ucState = .created → swtmr ∉ machine.swtmrs.sortLink) := by
  cases owned.owner swtmr inside with
  | free state => exact absurd state used
  | taken state => exact absurd state used
  | filled state out off creating => exact absurd (settled.symm.trans creating) (by simp)
  | created state out off settled made time =>
    exact ⟨iff_of_false (not_not.mpr time) off, out, made, fun _ => off⟩
  | ticking state out on settled made time =>
    exact ⟨iff_of_true time on, out, made, fun same => absurd (state.symm.trans same) (by simp)⟩
  | expired state out off settled made time mode message =>
    exact ⟨iff_of_false (not_not.mpr time) off, out, made, fun _ => off⟩

theorem stop (inside : swtmr < config.limit)
    (used : (machine.swtmrs.cbArray swtmr).ucState ≠ .unused)
    (settled : machine.creationOf swtmr = none) :
    Machine.Owned config { machine with swtmrs := machine.swtmrs.osSwtmrStop swtmr } nodes := by
  obtain ⟨time, out, made, -⟩ := owned.time_iff inside used settled
  obtain ⟨block, sorted, off, failed⟩ := Swtmrs.osSwtmrStop_self owned.sorted time
  refine owned.touch Swtmrs.osSwtmrStop_touches inside ?_ sorted (failed.trans owned.intact)
  rw [block]
  exact .created rfl out off settled made rfl

theorem start {before : Swtmrs}
    (touches : Swtmrs.Touches swtmr machine.swtmrs before) (inside : swtmr < config.limit)
    (out : swtmr ∉ nodes) (settled : machine.creationOf swtmr = none)
    (made : (before.cbArray swtmr).Made) (off : swtmr ∉ before.sortLink)
    (sorted : before.sortLink.Nodup) (intact : before.failed = false)
    (time : (before.cbArray swtmr).startTime +
      osSysTickToCycle config (before.cbArray swtmr).uwInterval ≠ osSortLinkInvalidTime) :
    Machine.Owned config { machine with swtmrs := before.osSwtmrStart config swtmr } nodes := by
  obtain ⟨block, perm, failed⟩ := @Swtmrs.osSwtmrStart_self config before swtmr
  refine owned.touch (touches.trans Swtmrs.osSwtmrStart_touches) inside ?_
    (perm.nodup_iff.mpr (nodup_cons.mpr ⟨off, sorted⟩)) ?_
  · rw [block]
    exact .ticking rfl out (perm.mem_iff.mpr mem_cons_self) settled made time
  · refine Bool.eq_false_iff.mpr fun linked => ?_
    rcases failed.mp linked with was | on
    · exact absurd (intact.symm.trans was) (by simp)
    · exact off on

theorem startAt (inside : swtmr < config.limit)
    (created : (machine.swtmrs.cbArray swtmr).ucState = .created)
    (settled : machine.creationOf swtmr = none) {currTime : UInt64}
    (time : machine.TimeValid config swtmr currTime) : Machine.Owned config { machine with
        swtmrs := (machine.swtmrs.modify swtmr fun block =>
          { block with startTime := currTime }).osSwtmrStart config swtmr } nodes := by
  obtain ⟨-, out, made, off⟩ := owned.time_iff inside (by simp [created]) settled
  have block := @Swtmrs.modify_self machine.swtmrs swtmr fun block =>
    { block with startTime := currTime }
  refine owned.start (Swtmrs.modify_touches rfl rfl) inside out settled ?_ (off created)
    owned.sorted owned.intact ?_
  · rw [block]
    exact made
  · rw [block]
    exact time

theorem delete (inside : swtmr < config.limit)
    (used : (machine.swtmrs.cbArray swtmr).ucState ≠ .unused)
    (settled : machine.creationOf swtmr = none) (off : swtmr ∉ machine.swtmrs.sortLink) :
    Machine.Owned config { machine with swtmrs := machine.swtmrs.osSwtmrDelete config swtmr }
      (swtmr :: nodes) := by
  obtain ⟨-, out, -, -⟩ := owned.time_iff inside used settled
  obtain ⟨index, low⟩ := owned.ids swtmr inside
  have others : ∀ other, other ≠ swtmr →
      (machine.swtmrs.osSwtmrDelete config swtmr).cbArray other =
        machine.swtmrs.cbArray other := fun other different =>
    Function.update_of_ne different _ _
  have block := @Swtmrs.osSwtmrDelete_self config machine.swtmrs swtmr
  refine owned.change inside (owned.threads.push out ?_ fun other different => ?_)
    (fun other different => ⟨others other different, ?_, .rfl, rfl⟩) (fun _ _ _ => id) ?_ ?_
    owned.sorted owned.creating owned.params owned.intact
  · show ((machine.swtmrs.osSwtmrDelete config swtmr).cbArray swtmr).pstNext = _
    rw [block]
  · exact congrArg SwtmrCtrl.pstNext (others other different)
  · rw [mem_cons]
    exact or_iff_right different
  · rw [block]
    dsimp only
    split
    · rw [Nat.add_mod_right]
      exact ⟨index, by omega⟩
    · rw [Nat.mod_mod, index]
      exact ⟨rfl, Nat.lt_of_lt_of_le inside config.limit_le⟩
  · rw [block]
    exact .free rfl mem_cons_self off settled

theorem popped (on : swtmr ∈ machine.swtmrs.sortLink) :
    let popped := (machine.swtmrs.modify swtmr fun block =>
      { block with startTime := block.responseTime }).osDeleteNodeSortLink swtmr
    Swtmrs.Touches swtmr machine.swtmrs popped ∧
      popped.cbArray swtmr = { machine.swtmrs.cbArray swtmr with
          startTime := (machine.swtmrs.cbArray swtmr).responseTime
          responseTime := osSortLinkInvalidTime } ∧
      popped.handlerQueue = machine.swtmrs.handlerQueue ∧ popped.sortLink.Nodup ∧
      swtmr ∉ popped.sortLink ∧ popped.failed = false := by
  refine ⟨(Swtmrs.modify_touches rfl rfl).trans Swtmrs.osDeleteNodeSortLink_touches, ?_, rfl,
    owned.sorted.erase _, owned.sorted.not_mem_erase, ?_⟩
  · simp [Swtmrs.osDeleteNodeSortLink, Swtmrs.modify]
  · simp [Swtmrs.osDeleteNodeSortLink, Swtmrs.modify, on, owned.intact]

theorem expire {before : Swtmrs} (on : swtmr ∈ machine.swtmrs.sortLink)
    (room : (machine.swtmrs.cbArray swtmr).ucMode = .once →
      machine.swtmrs.handlerQueue.length < config.queueSize ∨
        machine.Awaited (machine.swtmrs.cbArray swtmr).usTimerID)
    (time : (machine.swtmrs.cbArray swtmr).ucMode = .period →
      machine.TimeValid config swtmr (machine.swtmrs.cbArray swtmr).responseTime)
    (pops : before = (machine.swtmrs.modify swtmr fun block =>
      { block with startTime := block.responseTime }).osDeleteNodeSortLink swtmr) :
    Machine.Owned config { machine with swtmrs := before.osSwtmrTimeoutHandle config swtmr }
      nodes := by
  have inside := owned.below swtmr (.inr (.inl on))
  have used : (machine.swtmrs.cbArray swtmr).ucState = .ticking ∧
      machine.creationOf swtmr = none := by
    cases owned.owner swtmr inside with
    | ticking state out _ settled => exact ⟨state, settled⟩
    | _ => contradiction
  obtain ⟨state, settled⟩ := used
  obtain ⟨-, out, made, -⟩ := owned.time_iff inside (by simp [state]) settled
  have popped := owned.popped on
  rw [← pops] at popped
  obtain ⟨touches, block, queue, sorted, off, intact⟩ := popped
  have same : (before.cbArray swtmr).ucMode = (machine.swtmrs.cbArray swtmr).ucMode := by rw [block]
  rw [Swtmrs.osSwtmrTimeoutHandle, same]
  generalize item_eq : SwtmrHandlerItem.mk (before.cbArray swtmr).pfnHandler
    (before.cbArray swtmr).uwArg (before.cbArray swtmr).usTimerID = item
  obtain ⟨blocks, links, failed⟩ := before.writeHandler_frame config item
  have writes := touches.trans (@Swtmrs.writeHandler_touches config before swtmr item)
  have written : before.handlerQueue.length < config.queueSize →
      item ∈ (before.writeHandler config item).handlerQueue := by
    intro space
    rw [Swtmrs.writeHandler, if_pos space]
    exact mem_append_right _ (mem_singleton.mpr rfl)
  generalize before.writeHandler config item = after at blocks links failed writes written ⊢
  cases mode : (machine.swtmrs.cbArray swtmr).ucMode with
  | once =>
    refine owned.touch writes inside ?_ (links ▸ sorted) (failed.trans intact)
    rw [blocks, block]
    refine .expired state out (links ▸ off) settled made rfl mode ?_
    rcases room mode with space | ⟨other, member, awaited⟩
    · refine ⟨item, mem_append_right _ (written (queue ▸ space)), ?_⟩
      rw [← item_eq, block]
      exact ⟨rfl, made.2⟩
    refine ⟨other, ?_, awaited⟩
    rcases mem_append.mp member with taken | queued
    · exact mem_append_left _ taken
    · exact mem_append_right _ (writes.messages other queued)
  | period =>
    refine owned.start (writes.trans (Swtmrs.modify_touches rfl rfl)) inside out settled ?_
      (links ▸ off) (links ▸ sorted) (failed.trans intact) ?_
    · rw [Swtmrs.modify_self, blocks, block]
      exact made
    · rw [Swtmrs.modify_self, blocks, block]
      exact time mode
  | noSelfdelete =>
    refine owned.touch (writes.trans (Swtmrs.modify_touches rfl rfl)) inside ?_ (links ▸ sorted)
      (failed.trans intact)
    rw [Swtmrs.modify_self, blocks, block]
    exact .created rfl out (links ▸ off) settled made rfl
  | opp => exact absurd mode made.1

theorem create (param : CreateParam) :
    ∃ nodes', Machine.Owned config (machine.losSwtmrCreate param).1 nodes' := by
  rw [losSwtmrCreate]
  split
  · exact ⟨nodes, owned⟩
  rename_i checked
  split
  · exact ⟨nodes, owned⟩
  rename_i swtmr first
  have threads := owned.threads
  rw [first] at threads
  have inside := owned.below swtmr (.inl threads.first_mem)
  have free : (machine.swtmrs.cbArray swtmr).ucState = .unused ∧
      swtmr ∉ machine.swtmrs.sortLink ∧ machine.creationOf swtmr = none := by
    cases owned.owner swtmr inside with
    | free state on off settled => exact ⟨state, off, settled⟩
    | _ => exact absurd threads.first_mem ‹_›
  obtain ⟨state, off, settled⟩ := free
  obtain ⟨rest, rfl, threads'⟩ := threads.pop fun _ _ => rfl
  refine ⟨rest, owned.change inside threads' (fun other different => ⟨rfl, ?_, .rfl, ?_⟩)
    (fun _ _ _ => id) (owned.ids swtmr inside) (.taken state ?_ off ?_) owned.sorted ?_
    (forall_mem_cons.mpr ⟨checked, owned.params⟩) owned.intact⟩
  · rw [mem_cons]
    exact (or_iff_right different).symm
  · rw [creationOf, List.find?_cons_of_neg (by simpa using different.symm)]
    rfl
  · exact (nodup_cons.mp threads.nodup).1
  · rw [creationOf, List.find?_cons_of_pos (by simp)]
    rfl
  · refine nodup_cons.mpr ⟨fun member => ?_, owned.creating⟩
    obtain ⟨creation, inList, same⟩ := mem_map.mp member
    rw [creationOf, map_eq_none_iff, List.find?_eq_none] at settled
    exact settled creation inList (by simpa using same)

end

end Machine.Owned

theorem CreateParam.of_check {param : CreateParam} (checked : param.check = .ok) :
    param.mode ≠ .opp ∧ param.handler.isSome = true := by
  rw [check] at checked
  split at checked
  · exact absurd checked nofun
  split at checked
  · exact absurd checked nofun
  rename_i mode
  split at checked
  · exact absurd checked nofun
  rename_i handler
  exact ⟨mode, isSome_iff_ne_none.mpr handler⟩

theorem split_at {creations : List Creation} {index : Nat} {creation : Creation}
    (here : creations[index]? = some creation) :
    ∃ front back, creations = front ++ creation :: back ∧
      (∀ one, creations.set index one = front ++ [one] ++ back) ∧
      creations.eraseIdx index = front ++ [] ++ back := by
  obtain ⟨low, at_index⟩ := List.getElem?_eq_some_iff.mp here
  refine ⟨creations.take index, creations.drop (index + 1), ?_, fun one => ?_, ?_⟩
  · rw [← at_index, ← drop_eq_getElem_cons low, take_append_drop]
  · rw [set_eq_take_append_cons_drop, if_pos low, append_assoc, singleton_append]
  · rw [append_nil, eraseIdx_eq_take_drop_succ]

theorem Machine.creationOf_split {machine next : Machine} {front middle back : List Creation}
    {creation : Creation} (split : machine.creations = front ++ creation :: back)
    (becomes : next.creations = front ++ middle ++ back)
    (same : ∀ one ∈ middle, one.swtmr = creation.swtmr)
    (distinct : (machine.creations.map Creation.swtmr).Nodup) :
    (∀ other, other ≠ creation.swtmr → next.creationOf other = machine.creationOf other) ∧
      next.creationOf creation.swtmr = middle.head?.map Creation.filled ∧
      machine.creationOf creation.swtmr = some creation.filled := by
  have apart : ∀ one ∈ front ++ back, one.swtmr ≠ creation.swtmr := by
    intro one member equal
    rw [split, map_append] at distinct
    have fresh := (nodup_cons.mp (perm_middle.nodup_iff.mp distinct)).1
    rw [← map_append] at fresh
    exact fresh (equal ▸ mem_map_of_mem member)
  have front_none : front.find? (fun one => one.swtmr = creation.swtmr) = none :=
    List.find?_eq_none.mpr fun one member => by
      simpa using apart one (mem_append_left _ member)
  refine ⟨fun other different => ?_, ?_, ?_⟩
  · have middle_none : middle.find? (fun one => one.swtmr = other) = none :=
      List.find?_eq_none.mpr fun one member => by
        simpa [same one member] using different.symm
    rw [creationOf, creationOf, becomes, split, List.find?_append, List.find?_append, middle_none,
      or_none, List.find?_append, List.find?_cons_of_neg (by simpa using different.symm)]
  · rw [creationOf, becomes, append_assoc, List.find?_append, front_none]
    cases middle with
    | nil =>
      have back_none : back.find? (fun one => one.swtmr = creation.swtmr) = none :=
        List.find?_eq_none.mpr fun one member => by
          simpa using apart one (mem_append_right _ member)
      rw [nil_append, back_none]
      rfl
    | cons one rest =>
      rw [cons_append, List.find?_cons_of_pos (by simpa using same one mem_cons_self)]
      rfl
  · rw [creationOf, split, List.find?_append, front_none, List.find?_cons_of_pos (by simp)]
    rfl

namespace Machine.Owned

variable {config : Config} {machine : Machine} {nodes : List Nat}

section

variable (owned : machine.Owned config nodes)
include owned

theorem of_creation {swtmr : Nat} {filled : Bool}
    (creating : machine.creationOf swtmr = some filled) :
    swtmr < config.limit ∧ swtmr ∉ nodes ∧ swtmr ∉ machine.swtmrs.sortLink ∧
      (filled = true → (machine.swtmrs.cbArray swtmr).ucState = .created ∧
        (machine.swtmrs.cbArray swtmr).Made) := by
  have inside := owned.below swtmr (.inr (.inr (by simp [creating])))
  refine ⟨inside, ?_⟩
  cases owned.owner swtmr inside with
  | taken state out off same =>
    rw [creating] at same
    exact ⟨out, off, fun is => absurd (some.inj same) (by simp [is])⟩
  | filled state out off same made => exact ⟨out, off, fun _ => ⟨state, made⟩⟩
  | free _ _ _ settled => exact absurd (creating.symm.trans settled) (by simp)
  | created _ _ _ settled => exact absurd (creating.symm.trans settled) (by simp)
  | ticking _ _ _ settled => exact absurd (creating.symm.trans settled) (by simp)
  | expired _ _ _ settled => exact absurd (creating.symm.trans settled) (by simp)

theorem fill {creation : Creation} {index : Nat}
    (here : machine.creations[index]? = some creation) : Machine.Owned config { machine with
        swtmrs := machine.fill creation
        creations := machine.creations.set index { creation with filled := true } } nodes := by
  obtain ⟨front, back, split, sets, -⟩ := split_at here
  have member : creation ∈ machine.creations := mem_of_getElem? here
  have checked := owned.params creation member
  obtain ⟨others, self, was⟩ := @Machine.creationOf_split machine { machine with
      swtmrs := machine.fill creation
      creations := machine.creations.set index { creation with filled := true } }
    front [{ creation with filled := true }] back creation split (sets _) (by simp) owned.creating
  obtain ⟨inside, out, off, -⟩ := owned.of_creation was
  have block : (machine.fill creation).cbArray creation.swtmr = _ := Swtmrs.modify_self _
  have elsewhere : ∀ other, other ≠ creation.swtmr →
      (machine.fill creation).cbArray other = machine.swtmrs.cbArray other :=
    fun other different => Function.update_of_ne different _ _
  refine owned.change inside (owned.threads.congr fun other inList => ?_)
    (fun other different => ⟨elsewhere other different, .rfl, .rfl, others other different⟩)
    (fun _ _ _ => id) ?_ ?_ owned.sorted ?_ (fun one changed => ?_) owned.intact
  · refine congrArg SwtmrCtrl.pstNext (elsewhere other ?_)
    rintro rfl
    exact out inList
  · rw [block]
    exact owned.ids creation.swtmr inside
  · rw [block, self]
    exact .filled rfl out off rfl (CreateParam.of_check checked)
  · have distinct := owned.creating
    rw [split] at distinct
    rw [sets]
    simpa using distinct
  · rcases mem_or_eq_of_mem_set changed with old | rfl
    · exact owned.params one old
    · exact checked

theorem finish {creation : Creation} {index : Nat}
    (here : machine.creations[index]? = some creation) (filled : creation.filled = true) :
    Machine.Owned config
      { machine with
        swtmrs := machine.finish creation
        creations := machine.creations.eraseIdx index } nodes := by
  obtain ⟨front, back, split, -, erases⟩ := split_at here
  obtain ⟨others, self, was⟩ := @Machine.creationOf_split machine
    { machine with
      swtmrs := machine.finish creation
      creations := machine.creations.eraseIdx index }
    front [] back creation split erases (by simp) owned.creating
  obtain ⟨inside, out, off, made⟩ := owned.of_creation was
  obtain ⟨state, made⟩ := made filled
  have touches : Swtmrs.Touches creation.swtmr machine.swtmrs (machine.finish creation) :=
    Swtmrs.modify_touches rfl rfl
  have block : (machine.finish creation).cbArray creation.swtmr = _ := Swtmrs.modify_self _
  refine owned.change inside ?_ (fun other different => ⟨touches.others other different, .rfl, .rfl,
    others other different⟩) (fun _ _ _ => id) ?_ ?_ owned.sorted ?_
    (fun one kept => owned.params one (mem_of_mem_eraseIdx kept)) owned.intact
  · rw [touches.links]
    exact owned.threads
  · rw [touches.id]
    exact owned.ids creation.swtmr inside
  · rw [block, self]
    exact .created state out off rfl made rfl
  · exact owned.creating.sublist ((eraseIdx_sublist _ _).map _)

theorem drop {item : SwtmrHandlerItem} (took : machine.took = some item)
    (spares : ∀ swtmr < config.limit, (machine.swtmrs.cbArray swtmr).ucState = .ticking →
      (machine.swtmrs.cbArray swtmr).ucMode = .once → item.handler.isSome = true →
        (machine.swtmrs.cbArray swtmr).usTimerID ≠ item.swtmrID) :
    Machine.Owned config { machine with took := none } nodes := by
  refine { owned with owner := fun swtmr inside => ?_ }
  cases owned.owner swtmr inside with
  | free state on off settled => exact .free state on off settled
  | taken state out off creating => exact .taken state out off creating
  | filled state out off creating made => exact .filled state out off creating made
  | created state out off settled made time => exact .created state out off settled made time
  | ticking state out on settled made time => exact .ticking state out on settled made time
  | expired state out off settled made time mode message =>
    refine .expired state out off settled made time mode ?_
    obtain ⟨other, member, same, real⟩ := message
    rw [took] at member
    rcases mem_cons.mp member with rfl | queued
    · exact absurd same.symm (spares swtmr inside state mode real)
    · exact ⟨other, queued, same, real⟩

theorem read {item : SwtmrHandlerItem}
    {rest : List SwtmrHandlerItem} (idle : machine.took = none)
    (queue : machine.swtmrs.handlerQueue = item :: rest) :
    Machine.Owned config
      { machine with
        swtmrs := { machine.swtmrs with handlerQueue := rest }
        took := some item } nodes := by
  refine { owned with owner := fun swtmr inside => (owned.owner swtmr inside).mono .rfl .rfl ?_ }
  rintro ⟨other, member, same⟩
  rw [idle, queue] at member
  exact ⟨other, member, same⟩

theorem losSwtmrStart {swtmrId : Nat} {currTime : UInt64}
    (meets : InTime config machine (.start swtmrId currTime)) : Machine.Owned config
      { machine with swtmrs := (machine.swtmrs.losSwtmrStart config swtmrId currTime).1 }
      nodes := by
  rw [InTime, found] at meets
  rw [Swtmrs.losSwtmrStart]
  cases looks : machine.swtmrs.lookUp config swtmrId with
  | error code => exact owned
  | ok swtmr =>
    have inside := Swtmrs.lookUp_lt looks
    simp only [looks] at meets
    dsimp only
    cases state : (machine.swtmrs.cbArray swtmr).ucState with
    | unused => exact owned
    | created =>
      obtain ⟨settled, time⟩ := meets swtmr (by simp [state])
      exact owned.startAt inside state settled time
    | ticking =>
      obtain ⟨settled, time⟩ := meets swtmr (by simp [state])
      have used : (machine.swtmrs.cbArray swtmr).ucState ≠ .unused := by simp [state]
      have block := (Swtmrs.osSwtmrStop_self owned.sorted (owned.time_iff inside used settled).1).1
      refine (owned.stop inside used settled).startAt inside ?_ settled ?_
      · rw [block]
      · rw [TimeValid, block]
        exact time

theorem losSwtmrStop (swtmrId : Nat) : Machine.Owned config
      { machine with swtmrs := (machine.swtmrs.losSwtmrStop config swtmrId).1 } nodes := by
  rw [Swtmrs.losSwtmrStop]
  cases looks : machine.swtmrs.lookUp config swtmrId with
  | error code => exact owned
  | ok swtmr =>
    have inside := Swtmrs.lookUp_lt looks
    dsimp only
    cases state : (machine.swtmrs.cbArray swtmr).ucState with
    | unused => exact owned
    | created => exact owned
    | ticking =>
      have settled : machine.creationOf swtmr = none := by
        cases owned.owner swtmr inside with
        | ticking _ _ _ settled => exact settled
        | expired _ _ _ settled => exact settled
        | _ same => exact absurd (state.symm.trans same) (by simp)
      exact owned.stop inside (by simp [state]) settled

theorem losSwtmrDelete {swtmrId : Nat} (meets : InTime config machine (.delete swtmrId)) :
    ∃ nodes', Machine.Owned config
      { machine with swtmrs := (machine.swtmrs.losSwtmrDelete config swtmrId).1 } nodes' := by
  rw [InTime, found] at meets
  rw [Swtmrs.losSwtmrDelete]
  cases looks : machine.swtmrs.lookUp config swtmrId with
  | error code => exact ⟨_, owned⟩
  | ok swtmr =>
    have inside := Swtmrs.lookUp_lt looks
    simp only [looks] at meets
    dsimp only
    cases state : (machine.swtmrs.cbArray swtmr).ucState with
    | unused => exact ⟨_, owned⟩
    | created =>
      have settled := meets swtmr (by simp [state])
      have used : (machine.swtmrs.cbArray swtmr).ucState ≠ .unused := by simp [state]
      obtain ⟨-, -, -, off⟩ := owned.time_iff inside used settled
      exact ⟨_, owned.delete inside used settled (off state)⟩
    | ticking =>
      have settled := meets swtmr (by simp [state])
      have used : (machine.swtmrs.cbArray swtmr).ucState ≠ .unused := by simp [state]
      obtain ⟨block, -, off, -⟩ := Swtmrs.osSwtmrStop_self owned.sorted
        (owned.time_iff inside used settled).1
      exact ⟨_, (owned.stop inside used settled).delete inside (by simp [block]) settled off⟩

theorem handle {item : SwtmrHandlerItem}
    (took : machine.took = some item) (meets : InTime config machine .handle) :
    ∃ nodes', Machine.Owned config
      { machine with swtmrs := (machine.swtmrs.osSwtmrTask config item).1, took := none }
      nodes' := by
  have meets := meets item (by simp [took])
  rw [deletes] at meets
  have same : ∀ swtmr < config.limit,
      (machine.swtmrs.cbArray swtmr).usTimerID = item.swtmrID →
        item.swtmrID % config.limit = swtmr ∧ item.swtmrID < osSwtmrMaxTimerID config := by
    intro swtmr inside equal
    rw [← equal]
    exact owned.ids swtmr inside
  rw [Swtmrs.osSwtmrTask]
  split
  · rename_i skips
    refine ⟨nodes, owned.drop took fun swtmr inside _ _ real equal => ?_⟩
    rcases skips with null | high
    · simp [null] at real
    · exact Nat.not_le.mpr (same swtmr inside equal).2 high
  rename_i real
  rw [if_neg real] at meets
  dsimp only
  split
  · rename_i other
    refine ⟨nodes, owned.drop took fun swtmr inside _ _ _ equal => other ?_⟩
    rw [(same swtmr inside equal).1, equal]
  rename_i here
  rw [if_neg here] at meets
  split
  · rename_i once
    rw [if_pos once] at meets
    obtain ⟨used, off, settled⟩ := meets _ rfl
    have inside := Nat.mod_lt item.swtmrID config.positive
    refine ⟨_, (owned.delete inside used settled off).drop took
      fun swtmr low ticking _ _ equal => ?_⟩
    have block := @Swtmrs.osSwtmrDelete_self config machine.swtmrs (item.swtmrID % config.limit)
    by_cases this : swtmr = item.swtmrID % config.limit
    · rw [this, block] at ticking
      exact absurd ticking (by simp)
    have kept : (machine.swtmrs.osSwtmrDelete config
        (item.swtmrID % config.limit)).cbArray swtmr = machine.swtmrs.cbArray swtmr :=
      Function.update_of_ne this _ _
    rw [kept] at equal
    exact this (same swtmr low equal).1.symm
  · rename_i often
    refine ⟨nodes, owned.drop took fun swtmr inside _ once _ equal => often ?_⟩
    rw [(same swtmr inside equal).1]
    exact once

theorem step {next : Machine} {action : Action}
    (meets : InTime config machine action) (result : machine.step config action = some next) :
    ∃ nodes', next.Owned config nodes' := by
  rw [Machine.step] at result
  split at result
  · cases action with
    | create param => exact some.inj result ▸ owned.create param
    | fill index =>
      simp only [stepOutside] at result
      split at result
      · rename_i creation here
        split at result
        · exact absurd result nofun
        · exact ⟨nodes, some.inj result ▸ owned.fill here⟩
      · exact absurd result nofun
    | finish index =>
      simp only [stepOutside] at result
      split at result
      · rename_i creation here
        split at result
        · rename_i filled
          exact ⟨nodes, some.inj result ▸ owned.finish here filled⟩
        · exact absurd result nofun
      · exact absurd result nofun
    | start swtmrId currTime =>
      exact ⟨nodes, some.inj result ▸ owned.losSwtmrStart meets⟩
    | stop swtmrId => exact ⟨nodes, some.inj result ▸ owned.losSwtmrStop swtmrId⟩
    | delete swtmrId => exact some.inj result ▸ owned.losSwtmrDelete meets
    | read =>
      simp only [stepOutside] at result
      split at result
      · rename_i idle queue
        exact ⟨nodes, some.inj result ▸ owned.read idle queue⟩
      · exact absurd result nofun
    | handle =>
      simp only [stepOutside] at result
      split at result
      · rename_i took
        exact some.inj result ▸ owned.handle took meets
      · exact absurd result nofun
    | scan currTime => exact ⟨nodes, some.inj result ▸ { owned with }⟩
    | scanNext => exact absurd result nofun
  · rename_i currTime scanning
    cases action with
    | scanNext =>
      cases loops : machine.swtmrs.scanNext config currTime with
      | none =>
        rw [loops] at result
        exact ⟨nodes, some.inj result ▸ { owned with }⟩
      | some swtmrs =>
        rw [loops] at result
        rw [Swtmrs.scanNext.eq_def] at loops
        cases links : machine.swtmrs.sortLink with
        | nil => simp [links] at loops
        | cons first rest =>
          simp only [links, ite_none_right_eq_some, Option.some.injEq] at loops
          obtain ⟨due, rfl⟩ := loops
          obtain ⟨room, time⟩ := meets currTime (by simp [scanning]) first (by simp [links]) due
          exact ⟨nodes, some.inj result ▸
            owned.expire (links ▸ mem_cons_self) room time rfl⟩
    | _ => exact absurd result nofun

theorem inOrder : machine.InOrder config where
  owned swtmr inside := by
    have onFree : machine.Plays swtmr .free ↔ swtmr ∈ nodes := by
      constructor
      · rintro ⟨others, threads, once⟩
        rw [owned.threads.unique threads]
        exact count_pos_iff.mp (by omega)
      · exact fun member =>
          ⟨nodes, owned.threads, count_eq_one_of_mem owned.threads.nodup member⟩
    have onLink : machine.swtmrs.sortLink.count swtmr = 1 ↔ swtmr ∈ machine.swtmrs.sortLink :=
      ⟨fun once => count_pos_iff.mp (by omega), count_eq_one_of_mem owned.sorted⟩
    cases owned.owner swtmr inside with
    | free state on off settled =>
      refine ⟨.free, onFree.mpr on, fun role plays => ?_⟩
      cases role <;> simp_all [Plays]
    | taken state out off creating =>
      refine ⟨.created, ⟨off, .inr ⟨state, creating⟩⟩, fun role plays => ?_⟩
      rcases role with _ | _ | _ | _
      · exact absurd (onFree.mp plays) out
      all_goals simp_all [Plays]
    | filled state out off creating made =>
      refine ⟨.created, ⟨off, .inl state⟩, fun role plays => ?_⟩
      rcases role with _ | _ | _ | _
      · exact absurd (onFree.mp plays) out
      all_goals simp_all [Plays]
    | created state out off settled made time =>
      refine ⟨.created, ⟨off, .inl state⟩, fun role plays => ?_⟩
      rcases role with _ | _ | _ | _
      · exact absurd (onFree.mp plays) out
      all_goals simp_all [Plays]
    | ticking state out on settled made time =>
      refine ⟨.ticking, ⟨state, onLink.mpr on⟩, fun role plays => ?_⟩
      rcases role with _ | _ | _ | _
      · exact absurd (onFree.mp plays) out
      all_goals simp_all [Plays]
    | expired state out off settled made time mode message =>
      refine ⟨.expired, ⟨state, mode, off, message⟩, fun role plays => ?_⟩
      rcases role with _ | _ | _ | _
      · exact absurd (onFree.mp plays) out
      all_goals simp_all [Plays]
  free := by
    refine ⟨nodes, owned.threads, owned.threads.nodup, fun swtmr member => ?_⟩
    have inside := owned.below swtmr (.inl member)
    refine ⟨inside, ?_⟩
    cases owned.owner swtmr inside with
    | free state on off settled => exact off
    | _ => contradiction
  intact := owned.intact

end

end Machine.Owned

/-! ### Runs -/

theorem threads_osSwtmrInit (config : Config) :
    Threads (osSwtmrInit config).links (osSwtmrInit config).freeList (List.range config.limit) := by
  have from_block : ∀ count first, first + count = config.limit →
      Threads (osSwtmrInit config).links (if first < config.limit then some first else none)
        (List.range' first count) := by
    intro count
    induction count with
    | zero =>
      intro first last
      rw [if_neg (by omega)]
      rfl
    | succ count hypothesis =>
      intro first last
      rw [if_pos (by omega)]
      exact ⟨rfl, hypothesis (first + 1) (by omega)⟩
  have all := from_block config.limit 0 (Nat.zero_add _)
  rw [if_pos config.positive, ← range_eq_range'] at all
  exact all

theorem owned_init (config : Config) :
    (Machine.init config).Owned config (List.range config.limit) where
  threads := threads_osSwtmrInit config
  ids swtmr inside := ⟨Nat.mod_eq_of_lt inside, Nat.lt_of_lt_of_le inside config.limit_le⟩
  owner swtmr inside := .free rfl (mem_range.mpr inside) (by simp [Machine.init, osSwtmrInit])
    rfl
  below swtmr known := by
    rcases known with free | linked | creating
    · exact mem_range.mp free
    · exact absurd linked (by simp [Machine.init, osSwtmrInit])
    · exact absurd rfl creating
  sorted := nodup_nil
  creating := nodup_nil
  params _ member := absurd member (by simp [Machine.init])
  intact := rfl

/-- Every timer control block has one owner in every run within the conditions. -/
theorem timers_in_order (config : Config) {machine : Machine}
    (reached : Reachable (Machine.step config) (InTime config) (· = Machine.init config) machine) :
    machine.InOrder config := by
  have initial : ∀ machine, machine = Machine.init config → ∃ nodes, machine.Owned config nodes :=
    fun _ same => ⟨_, same ▸ owned_init config⟩
  obtain ⟨nodes, owned⟩ := reached.invariant initial fun _ _ _ _ ⟨_, owned⟩ meets result =>
    owned.step meets result
  exact owned.inOrder

/-- Two timers, a handler queue for one message, and a tick of a thousand cycles. -/
def twoTimers : Config where
  limit := 2
  queueSize := 1
  sysClock := 100000
  tickPerSecond := 100
  positive := by decide
  small := by decide

def fiveTicks (mode : Mode) : CreateParam := ⟨5, mode, some 1, true, 0⟩

/-- A timer that runs once and one that runs periodically are created and started, they expire, and
the timer task handles the message of the first. -/
def timerRun : List Action :=
  [.create (fiveTicks .once), .create (fiveTicks .period), .fill 1, .fill 0, .finish 1, .finish 0,
    .start 0 100, .start 1 200, .scan 5150, .scanNext, .scanNext, .read, .scan 5250, .scanNext,
    .scanNext, .handle, .stop 1, .delete 1, .create (fiveTicks .once)]

theorem timers_in_order_sample : ∃ machine,
    execute (Machine.step twoTimers) (fun machine action => decide (InTime twoTimers machine action))
      (Machine.init twoTimers) timerRun = some machine ∧ machine.InOrder twoTimers := by
  have runs : (execute (Machine.step twoTimers)
      (fun machine action => decide (InTime twoTimers machine action)) (Machine.init twoTimers)
      timerRun).isSome = true := by decide
  obtain ⟨machine, result⟩ := Option.isSome_iff_exists.mp runs
  exact ⟨machine, result, timers_in_order twoTimers
    (.of_execute (fun _ _ => of_decide_eq_true) _ (.start rfl) result)⟩

/-- A timer that runs once expires and is started again before the timer task has read its
message. -/
def restartRun : List Action :=
  [.create (fiveTicks .once), .fill 0, .finish 0, .start 0 100, .scan 5150, .scanNext, .scanNext,
    .start 0 5200, .read, .handle]

/-- The timer task gives a timer that is linked to the free list. -/
theorem timers_out_of_order : ¬∀ machine,
    Reachable (Machine.step twoTimers) (fun _ _ => True) (· = Machine.init twoTimers) machine →
      machine.InOrder twoTimers := by
  have ends : (execute (Machine.step twoTimers) (fun _ _ => true) (Machine.init twoTimers)
      restartRun).map (fun machine => (machine.swtmrs.freeList, machine.swtmrs.sortLink)) =
        some (some 0, [0]) := by decide
  obtain ⟨machine, result, same⟩ := Option.map_eq_some_iff.mp ends
  obtain ⟨first, linked⟩ := Prod.mk.inj same
  intro all
  obtain ⟨nodes, threads, -, free⟩ :=
    (all machine (.of_execute (fun _ _ _ => trivial) _ (.start rfl) result)).free
  rw [first] at threads
  exact (free 0 threads.first_mem).2 (by simp [linked])

end TowerSafe.Swtmr
