/-
This file embeds the task calls of `los_task.c`. Signals are left out, and so are the values that
tasks return.
-/

import TowerSafe.Kernel.Machine

namespace TowerSafe.Kernel

open Library

/-- The part of `TSK_INIT_PARAM_S` that creating a task reads: the priority, the stack size,
whether the task is joinable and whether its stack is given. The entry is not the idle task's.
`memory` is whether a stack could be allocated. -/
structure TskInitParam where
  usTaskPrio : Nat
  uwStackSize : Nat := 0
  joinable : Bool := false
  stackAddr : Bool := false
  memory : Bool := true
  deriving DecidableEq

namespace Sched

variable (sched : Sched)

def osTaskInitParamCheck (param : TskInitParam) : Option Errno :=
  if param.usTaskPrio ≥ osTaskPriorityLowest then some .tskPriorError
  else if param.uwStackSize > sched.config.sysHeapSize then some .tskStkszTooLarge
  else if (if param.uwStackSize = 0 then sched.config.tskDefaultStackSize
      else param.uwStackSize) < sched.config.tskMinStackSize then some .tskStkszTooSmall
  else none

/-- `OsNewTaskInit`, on a control block that was zeroed. -/
def osNewTaskInit (taskID : Nat) (param : TskInitParam) : Sched :=
  sched.modify taskID fun taskCB =>
    { taskCB with
      taskStatus := { suspend := true, joinable := param.joinable, stackFree := !param.stackAddr }
      priority := param.usTaskPrio
      timeSlice := 0
      waitTimes := 0
      eventMask := 0
      responseTime := none }

def osInsertTCBToFreeList (taskID : Nat) : Sched :=
  (sched.modify taskID fun _ => unusedTaskCB).losListAdd taskID .losFreeTask

/-- `OsRecycleTaskResources`; freeing the stack is left out. -/
def osRecycleTaskResources (taskID : Nat) : Sched :=
  if (sched.status taskID).joinable then
    sched.modifyStatus taskID fun status => { status with stackFree := false }
  else sched.osInsertTCBToFreeList taskID

/-- One round of the loop of `OsRecycleFinishedTask`. -/
def osRecycleFinishedTask : Sched :=
  match sched.chains.first .taskRecycleList with
  | some taskID => (sched.losListDelete taskID).osRecycleTaskResources taskID
  | none => sched

def osTaskJoinPostUnsafe (taskID : Nat) : Sched :=
  if (sched.status taskID).joinable then
    match sched.firstWaiter (.joinList taskID) with
    | some resumedTask => sched.osSchedTaskWake resumedTask
    | none => sched
  else sched

def osTaskSetDetachUnsafe (taskID : Nat) : Sched × Ret :=
  if (sched.status taskID).joinable then
    if (sched.firstWaiter (.joinList taskID)).isNone then
      (sched.modifyStatus taskID fun status => { status with joinable := false }, .ok)
    else (sched, .error .tskNotJoin)
  else (sched, .error .nok)

/-- A finished task is unused and waits to be recycled. -/
def finishTask (taskID : Nat) : Sched :=
  (sched.modifyStatus taskID fun status => { status with unused := true }).losListTailInsert taskID
    .taskRecycleList

/-- `OsRunningTaskDelete`, with the marking of the task before it: the block behind the last task
stands in for the running one. -/
def osRunningTaskDelete (taskID : Nat) : Sched :=
  { (sched.finishTask taskID).modifyStatus sched.config.taskMaxNum fun _ =>
      { (sched.finishTask taskID).status taskID with running := true } with
    runTask := sched.config.taskMaxNum
    deletedTaskID := taskID }

/-- Deleting the running task unlocks the scheduler. -/
def unlockFor (taskID : Nat) : Sched :=
  if (sched.status taskID).running then { sched with losTaskLock := 0 } else sched

/-- What `LOS_TaskDelete` does to the scheduler before it looks whether the task runs. -/
def exitTask (taskID : Nat) : Sched :=
  (((sched.unlockFor taskID).osTaskJoinPostUnsafe taskID).osSchedTaskExit taskID).modify taskID
    fun taskCB => { taskCB with eventMask := 0 }

/-- What `LOS_TaskDelete` does to the scheduler once its checks have passed. -/
def deleteTask (taskID : Nat) : Sched :=
  if (sched.status taskID).running then
    if (sched.status taskID).joinable then sched.exitTask taskID
    else (sched.exitTask taskID).osRunningTaskDelete taskID
  else (sched.exitTask taskID).osRecycleTaskResources taskID

end Sched

namespace Machine

variable (machine : Machine)

def osCheckTaskIDValid (taskID : Nat) : Option Errno :=
  if taskID = machine.sched.config.idleTaskID then some .tskOperateIdle
  else if taskID = machine.sched.config.swtmrTaskID then some .tskSuspendSwtmrNotAllowed
  else if taskID ≥ machine.sched.config.taskMaxNum then some .tskIdInvalid
  else none

/-- `LOS_TaskCreateOnly` up to its return, with the new task. The finished tasks that it
recycles first are recycled in rounds of their own. -/
def createTask (param : TskInitParam) : Except Errno (Machine × Nat) :=
  match machine.sched.osTaskInitParamCheck param with
  | some code => .error code
  | none =>
      match machine.sched.chains.first .losFreeTask with
      | none => .error .tskTcbUnavailable
      | some taskID =>
          if !param.stackAddr && !param.memory then .error .tskNoMemory
          else
            .ok ((((machine.withSched
              ((machine.sched.losListDelete taskID).osNewTaskInit taskID param)).setPc taskID
                .user).record (.priorityGiven taskID param.usTaskPrio)), taskID)

def losTaskCreateOnly (param : TskInitParam) : Machine × Next :=
  match machine.createTask param with
  | .error code => (machine, .returns (.error code))
  | .ok (created, _) => (created, .returns .ok)

/-- `LOS_TaskCreate`, up to the end of its first critical section. -/
def losTaskCreate (param : TskInitParam) : Machine × Next :=
  match machine.createTask param with
  | .error code => (machine, .returns (.error code))
  | .ok (created, taskID) => (created, .creates taskID)

def losTaskResume (taskID : Nat) : Machine × Next :=
  if taskID ≥ machine.sched.config.taskMaxNum then (machine, .returns (.error .tskIdInvalid))
  else if (machine.sched.status taskID).unused then (machine, .returns (.error .tskNotCreated))
  else if !(machine.sched.status taskID).suspend then
    (machine, .returns (.error .tskNotSuspended))
  else
    (machine.withSched (machine.sched.osSchedResume taskID).1,
      if (machine.sched.osSchedResume taskID).2 then .schedules (.finish .ok) else .returns .ok)

def losTaskSuspend (taskID : Nat) : Machine × Next :=
  match machine.osCheckTaskIDValid taskID with
  | some code => (machine, .returns (.error code))
  | none =>
      if (machine.sched.status taskID).unused then (machine, .returns (.error .tskNotCreated))
      else if (machine.sched.status taskID).systemTask then
        (machine, .returns (.error .tskOperateSystemTask))
      else if (machine.sched.status taskID).suspend then
        (machine, .returns (.error .tskAlreadySuspended))
      else if (machine.sched.status taskID).running ∧ machine.sched.losTaskLock ≠ 0 then
        (machine, .returns (.error .tskSuspendLocked))
      else
        (machine.withSched (machine.sched.osSchedSuspend taskID),
          if taskID = machine.sched.runTaskID then .schedules (.finish .ok) else .returns .ok)

def losTaskDelete (taskID : Nat) : Machine × Next :=
  match machine.osCheckTaskIDValid taskID with
  | some code => (machine, .returns (.error code))
  | none =>
      if (machine.sched.status taskID).systemTask then
        (machine, .returns (.error .tskOperateSystemTask))
      else if (machine.sched.status taskID).unused then (machine, .returns (.error .tskNotCreated))
      else if (machine.sched.status taskID).exit then (machine, .returns (.error .tskAlreadyExit))
      else if (machine.sched.status taskID).signal then
        (machine, .returns (.error .tskProcessSignal))
      else
        (machine.withSched (machine.sched.deleteTask taskID),
          if (machine.sched.status taskID).running then .schedules (.finish .ok) else .returns .ok)

/-- `LOS_TaskJoin`, with `OsTaskJoinPendUnsafe`. -/
def losTaskJoin (interrupt : Bool) (taskID : Nat) : Machine × Next :=
  match machine.osCheckTaskIDValid taskID with
  | some code => (machine, .returns (.error code))
  | none =>
      if interrupt then (machine, .returns (.error .tskNotAllowInInt))
      else if machine.sched.losTaskLock ≠ 0 then (machine, .returns (.error .tskSchedLocked))
      else if taskID = machine.sched.runTaskID then (machine, .returns (.error .tskNotJoinSelf))
      else if (machine.sched.status taskID).unused then (machine, .returns (.error .tskNotCreated))
      else if (machine.sched.status taskID).exit then (machine, .schedules (.taskJoin taskID))
      else if (machine.sched.status taskID).joinable ∧
          (machine.sched.firstWaiter (.joinList taskID)).isNone then
        (machine.withSched (machine.sched.osSchedTaskWait (.joinList taskID) losWaitForever),
          .schedules (.taskJoin taskID))
      else (machine, .returns (.error .nok))

/-- `LOS_TaskJoin` after `LOS_Schedule`. -/
def losTaskJoinResumed (taskID : Nat) : Machine × Next :=
  (machine.withSched ((machine.sched.modifyStatus taskID
    fun status => { status with joinable := false }).osRecycleTaskResources taskID), .returns .ok)

/-- `LOS_TaskDetach`, up to its call of `LOS_TaskJoin` when the task has exited. -/
def losTaskDetach (interrupt : Bool) (taskID : Nat) : Machine × Next :=
  match machine.osCheckTaskIDValid taskID with
  | some code => (machine, .returns (.error code))
  | none =>
      if interrupt then (machine, .returns (.error .tskNotAllowInInt))
      else if (machine.sched.status taskID).unused then (machine, .returns (.error .tskNotCreated))
      else if (machine.sched.status taskID).exit then (machine, .continues (.taskDetach taskID))
      else
        (machine.withSched (machine.sched.osTaskSetDetachUnsafe taskID).1,
          .returns (machine.sched.osTaskSetDetachUnsafe taskID).2)

def losTaskYield : Machine × Next :=
  (machine.withSched machine.sched.osSchedYield, .schedules (.finish .ok))

def losTaskDelay (interrupt : Bool) (tick : Nat) : Machine × Next :=
  if interrupt then (machine, .returns (.error .tskDelayInInt))
  else if machine.sched.losTaskLock ≠ 0 then (machine, .returns (.error .tskDelayInLock))
  else if (machine.sched.status machine.runTask).systemTask then
    (machine, .returns (.error .tskOperateSystemTask))
  else if tick = 0 then machine.losTaskYield
  else (machine.withSched (machine.sched.osSchedDelay tick), .schedules (.finish .ok))

def losTaskPriSet (taskID taskPrio : Nat) : Machine × Next :=
  if taskPrio > osTaskPriorityLowest then (machine, .returns (.error .tskPriorError))
  else if taskID = machine.sched.config.idleTaskID then
    (machine, .returns (.error .tskOperateIdle))
  else if taskID = machine.sched.config.swtmrTaskID then
    (machine, .returns (.error .tskOperateSwtmr))
  else if taskID ≥ machine.sched.config.taskMaxNum then
    (machine, .returns (.error .tskIdInvalid))
  else if (machine.sched.status taskID).unused then (machine, .returns (.error .tskNotCreated))
  else if (machine.sched.status taskID).systemTask then
    (machine, .returns (.error .tskOperateSystemTask))
  else
    ((machine.withSched (machine.sched.osSchedModifyTaskSchedParam taskID taskPrio).1).record
      (.priorityGiven taskID taskPrio),
      if (machine.sched.osSchedModifyTaskSchedParam taskID taskPrio).2 then
        .schedules (.finish .ok)
      else .returns .ok)

def losTaskLock : Machine × Next :=
  (machine.withSched { machine.sched with losTaskLock := (machine.sched.losTaskLock + 1) % 2 ^ 16 },
    .returns .ok)

def losTaskUnlock : Machine × Next :=
  if machine.sched.losTaskLock > 0 then
    (machine.withSched { machine.sched with losTaskLock := machine.sched.losTaskLock - 1 },
      if machine.sched.losTaskLock = 1 then .schedules (.finish .ok) else .returns .ok)
  else (machine, .returns .ok)

end Machine

end TowerSafe.Kernel
