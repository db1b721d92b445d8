/-
This file holds the state of the machine the kernel runs: the control blocks of semaphores,
mutexes, event control blocks and copy-mode message queues, and where every task is in its
program. A call is split where the source leaves its critical section: the first part ends in a
return, in a call of `LOS_Schedule` with something left to do afterwards, between the two
critical sections of `LOS_TaskCreate`, or where `LOS_TaskDetach` goes on with `LOS_TaskJoin`.

The machine keeps a log of what the calls achieved. No call reads it; it is there to be
reasoned about.
-/

import TowerSafe.Kernel.Scheduler

namespace TowerSafe.Kernel

open Library

/-! ### Control blocks -/

structure LosSemCB where
  used : Bool := false
  semCount : Nat := 0
  maxSemCount : Nat := 0
  deriving DecidableEq

/-- `LosMuxCB`; the saved priority is that of the owner when it took the mutex. -/
structure LosMuxCB where
  used : Bool := false
  muxCount : Nat := 0
  owner : Option Nat := none
  priority : Nat := 0
  deriving DecidableEq

/-- `EVENT_CB_S`. -/
structure EventCB where
  uwEventID : BitVec 32 := 0
  deriving DecidableEq

/-- One node of a message queue: its bytes, and the size kept in its last four bytes. -/
structure QueueNode where
  bytes : List UInt8 := []
  msgDataSize : Nat := 0
  deriving DecidableEq

structure LosQueueCB where
  inUse : Bool := false
  queueLen : Nat := 0
  queueSize : Nat := 0
  queueHead : Nat := 0
  queueTail : Nat := 0
  readWriteableCnt : ReadWrite → Nat := fun _ => 0
  queue : Nat → QueueNode := fun _ => {}

/-- The copy of `OsQueueBufferOperate` into a node: the message goes over its first bytes, its
size into the last four. -/
def QueueNode.write (node : QueueNode) (data : List UInt8) : QueueNode where
  bytes := data ++ node.bytes.drop data.length
  msgDataSize := data.length

/-- The copy of `OsQueueBufferOperate` out of a node: as much of the message as fits the
buffer. -/
def QueueNode.read (node : QueueNode) (bufferSize : Nat) : List UInt8 :=
  node.bytes.take (if bufferSize < node.msgDataSize then bufferSize else node.msgDataSize)

/-- `OsQueueBufferOperate` of a read: the node at the head, which moves on. -/
def LosQueueCB.readHead (queueCB : LosQueueCB) (bufferSize : Nat) : LosQueueCB × List UInt8 :=
  ({ queueCB with
      queueHead :=
        if queueCB.queueHead + 1 = queueCB.queueLen then 0 else queueCB.queueHead + 1 },
    (queueCB.queue queueCB.queueHead).read bufferSize)

/-- `OsQueueBufferOperate` of a write at the head: the head moves back and is written. -/
def LosQueueCB.writeHead (queueCB : LosQueueCB) (data : List UInt8) : LosQueueCB :=
  let position :=
    if queueCB.queueHead = 0 then queueCB.queueLen - 1 else queueCB.queueHead - 1
  { queueCB with
    queueHead := position
    queue := Function.update queueCB.queue position ((queueCB.queue position).write data) }

/-- `OsQueueBufferOperate` of a write at the tail, which moves on. -/
def LosQueueCB.writeTail (queueCB : LosQueueCB) (data : List UInt8) : LosQueueCB :=
  { queueCB with
    queueTail :=
      if queueCB.queueTail + 1 = queueCB.queueLen then 0 else queueCB.queueTail + 1
    queue :=
      Function.update queueCB.queue queueCB.queueTail
        ((queueCB.queue queueCB.queueTail).write data) }

/-- One more or one less readable or writable node. -/
def LosQueueCB.setCnt (queueCB : LosQueueCB) (readWrite : ReadWrite) (count : Nat) :
    LosQueueCB :=
  { queueCB with
    readWriteableCnt := Function.update queueCB.readWriteableCnt readWrite count }

/-- The operation of a queue call, with its buffer: the size of the one read into, or what is
written. -/
inductive QueueOperate where
  | readHead (bufferSize : Nat)
  | writeHead (data : List UInt8)
  | writeTail (data : List UInt8)
  deriving DecidableEq

/-- `OS_QUEUE_READ_WRITE_GET`. -/
def QueueOperate.readWrite : QueueOperate → ReadWrite
  | readHead _ => .read
  | writeHead _ => .write
  | writeTail _ => .write

def QueueOperate.bufferSize : QueueOperate → Nat
  | readHead bufferSize => bufferSize
  | writeHead data => data.length
  | writeTail data => data.length

/-- What a call still has to do when it runs again: after `LOS_Schedule`, or after the first part
of `LOS_TaskDetach`. -/
inductive Cont where
  | finish (ret : Ret)
  | semPend (sem : Nat)
  | muxPend (mux : Nat)
  | queueOperate (queue : Nat) (operate : QueueOperate)
  | eventRead (event : Nat) (eventMask mode : BitVec 32)
  | taskJoin (taskID : Nat)
  | taskDetach (taskID : Nat)
  deriving DecidableEq

/-- The list that a call which has something left to do may have put its task in. -/
def Cont.waitsIn : Cont → Option WaitHead
  | finish _ => none
  | semPend sem => some (.semList sem)
  | muxPend mux => some (.muxList mux)
  | queueOperate queue operate => some (.readWriteList queue operate.readWrite)
  | eventRead event _ _ => some (.eventList event)
  | taskJoin taskID => some (.joinList taskID)
  | taskDetach _ => none

/-- Where a task is in its program: between two calls, between the two critical sections of
`LOS_TaskCreate`, before `LOS_Schedule`, or before the rest of a call. -/
inductive Pc where
  | user
  | creating (taskID : Nat)
  | schedule (cont : Cont)
  | resume (cont : Cont)
  deriving DecidableEq

/-- The list that the call a task is in has put it in. -/
def Pc.waitsIn : Pc → Option WaitHead
  | user => none
  | creating _ => none
  | schedule cont => cont.waitsIn
  | resume cont => cont.waitsIn

/-- How the first part of a call ends. -/
inductive Next where
  | returns (ret : Ret)
  | schedules (cont : Cont)
  | continues (cont : Cont)
  | creates (taskID : Nat)
  deriving DecidableEq

/-- What the calls achieved. -/
inductive Event where
  /-- A successful `LOS_SemPost`. -/
  | semPosted (sem : Nat)
  /-- A unit was given to a task: it decremented the count, or a post handed it over. -/
  | semGranted (sem task : Nat)
  /-- `LOS_SemPend` returned `LOS_OK` to a task. -/
  | semPendOk (sem task : Nat)
  /-- A mutex was given to a task: it took or retook it, or a post handed it over. -/
  | muxGranted (mux task : Nat)
  /-- A successful `LOS_MuxPost`. -/
  | muxPosted (mux task : Nat)
  /-- `LOS_MuxPend` returned `LOS_OK` to a task. -/
  | muxPendOk (mux task : Nat)
  /-- A message was written at the head or at the tail of a queue. -/
  | queueWritten (queue : Nat) (atHead : Bool) (message : List UInt8)
  /-- A message was read from a queue. -/
  | queueRead (queue : Nat) (message : List UInt8)
  /-- A task was given a priority by its creation or by `LOS_TaskPriSet`. -/
  | priorityGiven (task priority : Nat)
  deriving DecidableEq

/-- The machine the kernel runs: the scheduler, the control blocks, where every task is in its
program, the tasks an interrupt handler is in the middle of creating, and the log, latest event
first. -/
structure Machine where
  sched : Sched
  allSem : Nat → LosSemCB
  allMux : Nat → LosMuxCB
  allQueue : Nat → LosQueueCB
  allEvent : Nat → EventCB
  pc : Nat → Pc
  interruptCreating : List Nat
  log : List Event

namespace Machine

variable (machine : Machine)

def withSched (sched : Sched) : Machine := { machine with sched := sched }

def record (event : Event) : Machine := { machine with log := event :: machine.log }

/-- Change one semaphore. -/
def modifySem (sem : Nat) (change : LosSemCB → LosSemCB) : Machine :=
  { machine with allSem := Function.update machine.allSem sem (change (machine.allSem sem)) }

/-- Change one mutex. -/
def modifyMux (mux : Nat) (change : LosMuxCB → LosMuxCB) : Machine :=
  { machine with allMux := Function.update machine.allMux mux (change (machine.allMux mux)) }

/-- Change one message queue. -/
def modifyQueue (queue : Nat) (change : LosQueueCB → LosQueueCB) : Machine :=
  { machine with allQueue := Function.update machine.allQueue queue (change (machine.allQueue queue)) }

/-- Set the bits of one event control block. -/
def setEvent (event : Nat) (bits : BitVec 32) : Machine :=
  { machine with allEvent := Function.update machine.allEvent event ⟨bits⟩ }

def setPc (task : Nat) (pc : Pc) : Machine :=
  { machine with pc := Function.update machine.pc task pc }

/-- The running task. -/
abbrev runTask : Nat := machine.sched.runTask

end Machine

end TowerSafe.Kernel
