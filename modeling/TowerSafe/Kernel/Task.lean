/-
This file embeds the data of the LiteOS-M kernel that the scheduler and the interprocess
communication share: the task control block with its status flags, the lists a task can be
linked in, and the state of `los_sched.c` and `los_task.c`. Task control blocks are named by
their index in `g_taskCBArray`; the block at index `g_taskMaxNum` is the one that stands in
for a running task that deleted itself.

The flags of `taskStatus` are separate fields. The `pendList` node of a task is in at most one
list, which the family of lists keeps. Cycle counts do not wrap; the time slice is an `INT32`
and does.
-/

import Mathlib
import TowerSafe.Library.Chains

namespace TowerSafe.Kernel

open Library

/-! ### Constants -/

def osTaskPriorityLowest : Nat := 31

def losWaitForever : Nat := 0xFFFFFFFF

def priqueuePrior0Bit : BitVec 32 := 0x80000000

/-- The error codes of the modelled calls; `nok` is `LOS_NOK`. -/
inductive Errno where
  | nok | tskIdInvalid | tskOperateIdle | tskOperateSwtmr | tskSuspendSwtmrNotAllowed
  | tskNotCreated | tskNotSuspended | tskAlreadySuspended | tskSuspendLocked
  | tskOperateSystemTask | tskAlreadyExit | tskProcessSignal | tskPriorError | tskDelayInInt
  | tskDelayInLock | tskTcbUnavailable | tskStkszTooLarge | tskStkszTooSmall | tskNoMemory
  | tskNotAllowInInt | tskSchedLocked | tskNotJoinSelf | tskNotJoin
  | semInvalid | semPendInterr | semPendInLock | semPendInSystemTask | semUnavailable
  | semTimeout | semOverflow
  | muxInvalid | muxInInterr | muxPendInLock | muxPendInSystemTask | muxUnavailable | muxTimeout
  | eventEventmaskInvalid | eventSetbitInvalid | eventFlagsInvalid | eventReadInInterrupt
  | eventReadInSystemTask | eventReadInLock | eventReadTimeout
  | queueInvalid | queueNotFound | queueReadsizeIszero | queueWritesizeIszero
  | queueReadInInterrupt | queueWriteInInterrupt | queueNotCreate | queueWriteSizeTooBig
  | queueBufferSizeTooBig | queueIsempty | queueIsfull | queuePendInLock | queueTimeout
  | queueInTskuse | queueInTskwrite | memFreeFailed
  deriving DecidableEq

/-- What a call returns: `LOS_OK`, an error code, or the event bits of an event read. -/
inductive Ret where
  | ok
  | error (code : Errno)
  | events (bits : BitVec 32)
  deriving DecidableEq

/-! ### The lists a task can be linked in -/

/-- The two directions of a message queue, `OS_QUEUE_READ` and `OS_QUEUE_WRITE`. -/
inductive ReadWrite where
  | read
  | write
  deriving DecidableEq

/-- `!readWrite`. -/
def ReadWrite.other : ReadWrite → ReadWrite
  | read => write
  | write => read

/-- The lists a task waits in. -/
inductive WaitHead where
  | semList (sem : Nat)
  | muxList (mux : Nat)
  | readWriteList (queue : Nat) (readWrite : ReadWrite)
  | memList (queue : Nat)
  | eventList (event : Nat)
  | joinList (taskID : Nat)
  deriving DecidableEq

/-- The heads of all lists that thread `pendList` nodes: `g_priQueueList`, the wait lists,
`g_losFreeTask` and `g_taskRecycleList`. -/
inductive ListHead where
  | priQueue (priority : Nat)
  | wait (head : WaitHead)
  | losFreeTask
  | taskRecycleList
  deriving DecidableEq

/-! ### Task control blocks -/

/-- The bits of `taskStatus`: `OS_TASK_STATUS_*` and `OS_TASK_FLAG_*`. -/
structure TaskStatus where
  unused : Bool := false
  suspend : Bool := false
  ready : Bool := false
  pend : Bool := false
  running : Bool := false
  delay : Bool := false
  timeout : Bool := false
  pendTime : Bool := false
  exit : Bool := false
  stackFree : Bool := false
  systemTask : Bool := false
  signal : Bool := false
  freeze : Bool := false
  joinable : Bool := false
  deriving DecidableEq

/-- `OS_TASK_BLOCKED_STATUS`. -/
def TaskStatus.blocked (status : TaskStatus) : Bool :=
  status.pend || status.suspend || status.exit || status.unused

/-- The part of `LosTaskCB` that the modelled functions read. The response time is that of the
sort link node; `none` is `OS_SORT_LINK_INVALID_TIME`. -/
structure LosTaskCB where
  taskStatus : TaskStatus := {}
  priority : Nat := 0
  timeSlice : Int32 := 0
  waitTimes : Nat := 0
  startTime : Nat := 0
  responseTime : Option Nat := none
  eventMask : BitVec 32 := 0
  eventMode : BitVec 32 := 0
  deriving DecidableEq

/-- What `memset_s` and `OsInsertTCBToFreeList` leave of a task control block. -/
def unusedTaskCB : LosTaskCB where
  taskStatus := { unused := true }

/-! ### The state of the scheduler -/

/-- What the kernel is configured with: table sizes, the two system tasks, time. -/
structure Config where
  taskMaxNum : Nat
  idleTaskID : Nat
  swtmrTaskID : Nat
  semLimit : Nat
  muxLimit : Nat
  queueLimit : Nat
  schedTimeSlice : Int32
  schedTimeSliceMin : Int32
  sysClock : Nat
  tickPerSecond : Nat
  sysHeapSize : Nat
  tskDefaultStackSize : Nat
  tskMinStackSize : Nat

/-- The globals that the scheduler reads but for the tasks themselves: `g_losTask.runTask` and
the task identifier kept in the control block that stands in for a deleted running task,
`g_losTaskLock`, `g_sysNeedSched`, the current cycle and whether power management is on. -/
structure Globals where
  config : Config
  runTask : Nat
  deletedTaskID : Nat
  losTaskLock : Nat
  needSched : Bool
  cycle : Nat
  pmMode : Bool

/-- The scheduler: the globals, the task control blocks, the lists with the ready-queue
bitmap, and the sort link of the tasks that wait for a time. `failed` is set when an
`LOS_ASSERT` fails, which stops the system, or when a list node is linked a second time or
unlinked without being linked, which corrupts the lists. -/
structure Sched extends Globals where
  tcb : Nat → LosTaskCB
  chains : Chains ListHead Nat
  queueBitmap : BitVec 32
  taskSortLink : List Nat
  failed : Bool

namespace Sched

variable (sched : Sched) (task : Nat)

def status : TaskStatus :=
  (sched.tcb task).taskStatus

/-- The list a task's `pendList` node is linked in. -/
def home : Option ListHead :=
  sched.chains.home task

/-- The list a task waits in. -/
def wait : Option WaitHead :=
  match sched.home task with
  | some (.wait head) => some head
  | _ => none

def firstWaiter (head : WaitHead) : Option Nat :=
  sched.chains.first (.wait head)

def runTaskID : Nat :=
  if sched.runTask = sched.config.taskMaxNum then sched.deletedTaskID else sched.runTask

/-- Change one task control block. -/
def modify (change : LosTaskCB → LosTaskCB) : Sched :=
  { sched with tcb := Function.update sched.tcb task (change (sched.tcb task)) }

/-- Change the status bits of one task. -/
def modifyStatus (change : TaskStatus → TaskStatus) : Sched :=
  sched.modify task fun taskCB => { taskCB with taskStatus := change taskCB.taskStatus }

def losAssert (judge : Bool) : Sched :=
  { sched with failed := sched.failed || !judge }

/-- `LOS_ListAdd` of a task behind a list head. -/
def losListAdd (head : ListHead) : Sched :=
  { sched with
    chains := sched.chains.pushFront head task
    failed := sched.failed || (sched.home task).isSome }

/-- `LOS_ListTailInsert` of a task. -/
def losListTailInsert (head : ListHead) : Sched :=
  { sched with
    chains := sched.chains.pushBack head task
    failed := sched.failed || (sched.home task).isSome }

/-- `LOS_ListDelete` of a task. -/
def losListDelete : Sched :=
  { sched with
    chains := sched.chains.remove task
    failed := sched.failed || (sched.home task).isNone }

end Sched

end TowerSafe.Kernel
