/-
This file embeds `los_sched.c` and the sort link of `los_sortlink.c`: the ready queues with
their bitmap, waiting and waking, freezing and suspending, the timer scan and the task switch.

Programming the tick timer is left out: it decides when a tick interrupt comes and whether that
interrupt is for the sort link or for the time slice of the running task, and both are free in
the model. So is the hook table. The scheduler has been started, so `g_taskScheduled` holds.
-/

import Mathlib
import TowerSafe.Kernel.Task

namespace TowerSafe.Kernel

open Library

namespace Sched

variable (sched : Sched) (task : Nat)

/-! ### The ready queues -/

/-- Set the bit of a queue that is about to get its first task. -/
def markPriQueue (priority : Nat) : Sched :=
  { sched with
    queueBitmap :=
      if sched.chains.nodes (.priQueue priority) = [] then
        sched.queueBitmap ||| priqueuePrior0Bit >>> priority
      else sched.queueBitmap }

def osSchedPriQueueEnHead (priority : Nat) : Sched :=
  (sched.markPriQueue priority).losListAdd task (.priQueue priority)

def osSchedPriQueueEnTail (priority : Nat) : Sched :=
  (sched.markPriQueue priority).losListTailInsert task (.priQueue priority)

def osSchedPriQueueDelete (priority : Nat) : Sched :=
  let deleted := sched.losListDelete task
  { deleted with
    queueBitmap :=
      if deleted.chains.nodes (.priQueue priority) = [] then
        sched.queueBitmap &&& ~~~(priqueuePrior0Bit >>> priority)
      else sched.queueBitmap }

/-- The part of `OsSchedTaskEnQueue` that links a task other than the idle task: a task with
time left goes to the head of its queue, any other gets a new time slice and goes to the
tail. -/
def osSchedTaskEnList : Sched :=
  if (sched.tcb task).timeSlice > sched.config.schedTimeSliceMin then
    sched.osSchedPriQueueEnHead task (sched.tcb task).priority
  else
    (sched.modify task fun taskCB =>
      { taskCB with timeSlice := sched.config.schedTimeSlice }).osSchedPriQueueEnTail task
        (sched.tcb task).priority

def osSchedTaskEnQueue : Sched :=
  (if task = sched.config.idleTaskID then sched.losAssert (!(sched.status task).ready)
  else (sched.losAssert (!(sched.status task).ready)).osSchedTaskEnList task).modifyStatus task
    fun status =>
      { status with
        pend := false, suspend := false, delay := false, pendTime := false, ready := true }

def osSchedTaskDeQueue : Sched :=
  if (sched.status task).ready then
    (if task = sched.config.idleTaskID then sched
    else sched.osSchedPriQueueDelete task (sched.tcb task).priority).modifyStatus task
      fun status => { status with ready := false }
  else sched

/-! ### The sort link -/

/-- `OsAddNode2SortLink`: behind the last node that is not later, except that a node as early
as the first one goes right behind the first. -/
def osAddNode2SortLink (responseTime : Nat → Option Nat) (node : Nat) : List Nat → List Nat
  | [] => [node]
  | first :: rest =>
      if (responseTime node).getD 0 < (responseTime first).getD 0 then node :: first :: rest
      else if (responseTime first).getD 0 = (responseTime node).getD 0 then first :: node :: rest
      else
        let earlier := (rest.reverse.dropWhile fun one =>
          decide ((responseTime node).getD 0 < (responseTime one).getD 0)).reverse
        first :: (earlier ++ node :: rest.drop earlier.length)

theorem osAddNode2SortLink_perm (responseTime : Nat → Option Nat) (node : Nat) (nodes : List Nat) :
    (osAddNode2SortLink responseTime node nodes).Perm (node :: nodes) := by
  cases nodes with
  | nil => exact .refl _
  | cons first rest =>
    rw [osAddNode2SortLink]
    split
    · exact .refl _
    split
    · exact .swap _ _ _
    have front : (rest.reverse.dropWhile fun one =>
        decide ((responseTime node).getD 0 < (responseTime one).getD 0)).reverse <+: rest := by
      rw [← List.reverse_suffix, List.reverse_reverse]
      exact List.dropWhile_suffix _
    obtain ⟨later, split⟩ := front
    dsimp only
    generalize (rest.reverse.dropWhile _).reverse = earlier at split
    subst split
    rw [List.drop_left]
    exact (List.perm_middle.cons first).trans (.swap _ _ _)

def osAdd2SortLink (startTime waitTicks : Nat) : Sched :=
  let timed := sched.modify task fun taskCB =>
    { taskCB with
      responseTime :=
        some (startTime + waitTicks * sched.config.sysClock / sched.config.tickPerSecond) }
  { timed with
    taskSortLink :=
      osAddNode2SortLink (fun one => (timed.tcb one).responseTime) task sched.taskSortLink
    failed := sched.failed || decide (task ∈ sched.taskSortLink) }

def osDeleteNodeSortLink : Sched :=
  { sched.modify task fun taskCB => { taskCB with responseTime := none } with
    taskSortLink := sched.taskSortLink.erase task
    failed := sched.failed || decide (task ∉ sched.taskSortLink) }

def osDeleteSortLink : Sched :=
  if (sched.tcb task).responseTime = none then sched else sched.osDeleteNodeSortLink task

/-! ### Waiting and waking -/

def unpend : Sched :=
  (sched.losListDelete task).modifyStatus task fun status => { status with pend := false }

/-- The first part of `OsSchedTaskExit`: the task leaves its ready queue or its wait list. -/
def exitLists : Sched :=
  if (sched.status task).ready then sched.osSchedTaskDeQueue task
  else if (sched.status task).pend then sched.unpend task
  else sched

/-- The second part of `OsSchedTaskExit`: the task stops waiting for a time. -/
def exitTimer : Sched :=
  if (sched.status task).delay || (sched.status task).pendTime then
    (sched.osDeleteSortLink task).modifyStatus task
      fun status => { status with delay := false, pendTime := false }
  else sched

def osSchedTaskExit : Sched :=
  ((sched.exitLists task).exitTimer task).modifyStatus task
    fun status => { status with exit := true }

def osSchedYield : Sched :=
  sched.modify sched.runTask fun taskCB => { taskCB with timeSlice := 0 }

/-- `OsSchedDelay` of the running task. -/
def osSchedDelay (tick : Nat) : Sched :=
  sched.modify sched.runTask fun taskCB =>
    { taskCB with taskStatus := { taskCB.taskStatus with delay := true }, waitTimes := tick }

/-- The part of `OsSchedTaskWait` that puts the running task in a list. -/
def pendRunTask (head : WaitHead) : Sched :=
  (sched.modifyStatus sched.runTask
    fun status => { status with pend := true }).losListTailInsert sched.runTask (.wait head)

/-- `OsSchedTaskWait`: the running task waits in a list, for a time or for ever. -/
def osSchedTaskWait (head : WaitHead) (ticks : Nat) : Sched :=
  if ticks ≠ losWaitForever then
    (sched.pendRunTask head).modify sched.runTask fun taskCB =>
      { taskCB with taskStatus := { taskCB.taskStatus with pendTime := true }, waitTimes := ticks }
  else sched.pendRunTask head

/-- The part of `OsSchedTaskWake` that stops the time the task may wait. -/
def wakeTimer : Sched :=
  if (sched.status task).pendTime then
    (sched.osDeleteSortLink task).modifyStatus task
      fun status => { status with pendTime := false }
  else sched

/-- The end of `OsSchedTaskWake`: a task that is suspended or still running is not enqueued. -/
def wakeEnQueue : Sched :=
  if !(sched.status task).suspend && !(sched.status task).running then
    sched.osSchedTaskEnQueue task
  else sched

def osSchedTaskWake : Sched :=
  ((sched.unpend task).wakeTimer task).wakeEnQueue task

/-- The part of `OsSchedWakePendTimeTask` that ends the wait: a pending task has timed out. -/
def timeOut : Sched :=
  if (sched.status task).pend then
    (sched.modifyStatus task fun status =>
      { status with
        pend := false, pendTime := false, delay := false, timeout := true }).losListDelete task
  else
    sched.modifyStatus task
      fun status => { status with pend := false, pendTime := false, delay := false }

def osSchedWakePendTimeTask : Sched :=
  if (sched.status task).pend || (sched.status task).delay then
    if !(sched.status task).suspend then (sched.timeOut task).osSchedTaskEnQueue task
    else sched.timeOut task
  else sched

/-- The loop of `OsSchedScanTimerList` over the nodes of the sort link: waking a task only takes
its own node out, so what the loop finds next is the rest of the list it started with. -/
def scanTimerList : List Nat → Sched → Sched
  | [], sched => sched
  | first :: rest, sched =>
      match (sched.tcb first).responseTime with
      | none => sched
      | some responseTime =>
          if responseTime ≤ sched.cycle then
            scanTimerList rest ((sched.osDeleteNodeSortLink first).osSchedWakePendTimeTask first)
          else sched

def osSchedScanTimerList : Sched :=
  scanTimerList sched.taskSortLink sched

/-! ### Freezing, suspending, changing the priority -/

/-- `OsSchedFreezeTask`: the response time survives the deletion of the node. -/
def osSchedFreezeTask : Sched :=
  ((sched.osDeleteSortLink task).modify task fun taskCB =>
    { taskCB with responseTime := (sched.tcb task).responseTime }).modifyStatus task
      fun status => { status with freeze := true }

def osSortLinkInvalidTime : Nat := 2 ^ 64 - 1

/-- The part of `OsSchedUnfreezeTask` for a task whose time has passed: it stops waiting. -/
def stopWaiting : Sched :=
  (if (sched.status task).pend then sched.losListDelete task else sched).modify task fun taskCB =>
    { taskCB with
      responseTime := none
      taskStatus := { taskCB.taskStatus with delay := false, pendTime := false, pend := false } }

/-- `OsSchedUnfreezeTask`: a task whose time has not come is linked in again for the remaining
ticks. -/
def osSchedUnfreezeTask : Sched :=
  let thawed := sched.modifyStatus task fun status => { status with freeze := false }
  let responseTime := (sched.tcb task).responseTime.getD osSortLinkInvalidTime
  if responseTime > sched.cycle then
    let cyclePerTick := sched.config.sysClock / sched.config.tickPerSecond
    thawed.osAdd2SortLink task sched.cycle
      ((responseTime - sched.cycle + cyclePerTick - 1) % 2 ^ 64 / cyclePerTick % 2 ^ 32)
  else thawed.stopWaiting task

/-- The part of `OsSchedSuspend` that freezes the time of the task. -/
def suspendTimer : Sched :=
  if ((sched.status task).pendTime || (sched.status task).delay) && sched.pmMode then
    sched.osSchedFreezeTask task
  else sched

def osSchedSuspend : Sched :=
  ((sched.osSchedTaskDeQueue task).suspendTimer task).modifyStatus task
    fun status => { status with suspend := true }

/-- The part of `OsSchedResume` that decides whether the task is enqueued. -/
def thaw : Sched :=
  (if (sched.status task).freeze then sched.osSchedUnfreezeTask task else sched).modifyStatus task
    fun status => { status with suspend := false }

/-- `OsSchedResume`, with what it returns: whether the task was enqueued. -/
def osSchedResume : Sched × Bool :=
  if !(((sched.thaw task).status task).delay || ((sched.thaw task).status task).pend) then
    ((sched.thaw task).osSchedTaskEnQueue task, true)
  else (sched.thaw task, false)

/-- `OsSchedModifyTaskSchedParam`, with what it returns: whether to schedule. -/
def osSchedModifyTaskSchedParam (priority : Nat) : Sched × Bool :=
  let change (taskCB : LosTaskCB) : LosTaskCB := { taskCB with priority := priority }
  if (sched.status task).ready then
    (((sched.osSchedTaskDeQueue task).modify task change).osSchedTaskEnQueue task, true)
  else (sched.modify task change, (sched.status task).running)

/-! ### Switching tasks -/

def osTimeSliceUpdate : Sched :=
  (sched.losAssert (decide ((sched.tcb task).startTime ≤ sched.cycle))).modify task fun taskCB =>
    { taskCB with
      timeSlice :=
        if task = sched.config.idleTaskID then taskCB.timeSlice
        else taskCB.timeSlice - Int32.ofNat (sched.cycle - taskCB.startTime)
      startTime := sched.cycle }

/-- `OsGetTopTask`. A set bit of the bitmap promises a task in that queue; the entry of an empty
queue is not a task. -/
def osGetTopTask : Nat :=
  if sched.queueBitmap ≠ 0 then
    (sched.chains.first (.priQueue sched.queueBitmap.clz.toNat)).getD sched.config.idleTaskID
  else sched.config.idleTaskID

/-- The part of `OsSchedTaskSwitch` that puts the running task away. -/
def parkRunTask : Sched :=
  if (sched.status sched.runTask).pendTime || (sched.status sched.runTask).delay then
    sched.osAdd2SortLink sched.runTask (sched.tcb sched.runTask).startTime
      (sched.tcb sched.runTask).waitTimes
  else if !(sched.status sched.runTask).blocked then sched.osSchedTaskEnQueue sched.runTask
  else sched

/-- The part of `OsSchedTaskSwitch` that makes the new task the running one. -/
def runNewTask (newTask : Nat) : Sched :=
  if newTask ≠ sched.runTask then
    { (sched.modifyStatus sched.runTask fun status =>
          { status with running := false }).modify newTask fun taskCB =>
        { taskCB with
          taskStatus := { taskCB.taskStatus with running := true }
          startTime := (sched.tcb sched.runTask).startTime } with
      runTask := newTask }
  else sched

/-- `OsSchedTaskSwitch`, with the change of `g_losTask.runTask` that the context switch makes. -/
def osSchedTaskSwitch : Sched :=
  let parked := (sched.osTimeSliceUpdate sched.runTask).parkRunTask
  (parked.runNewTask parked.osGetTopTask).osSchedTaskDeQueue parked.osGetTopTask

/-- The part of `LOS_SchedTickHandler` before its request for a switch; `scanTimer` tells an
interrupt for the sort link from one for the time slice. -/
def ticked (scanTimer : Bool) : Sched :=
  (if scanTimer then sched.osSchedScanTimerList else sched).osTimeSliceUpdate sched.runTask

def losSchedTickHandler (scanTimer : Bool) : Sched :=
  { sched.ticked scanTimer with
    needSched := sched.needSched || decide (sched.losTaskLock = 0) }

end Sched

end TowerSafe.Kernel
