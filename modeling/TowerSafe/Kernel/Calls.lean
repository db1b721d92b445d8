/-
This file embeds the calls of the interprocess communication: semaphores, mutexes, event control
blocks and copy-mode message queues. The second part of a call that waited is what it does when
it runs again. Pointer arguments are valid, and the mail calls, whose tasks wait in a memory
list, are left out.
-/

import TowerSafe.Kernel.Machine

namespace TowerSafe.Kernel

open Library

namespace Machine

variable (machine : Machine)

/-! ### Semaphores -/

def osSemValidCheck (interrupt : Bool) (sem : Nat) : Option Errno :=
  if !(machine.allSem sem).used then some .semInvalid
  else if interrupt then some .semPendInterr
  else if machine.sched.losTaskLock ≠ 0 then some .semPendInLock
  else if (machine.sched.status machine.runTask).systemTask then some .semPendInSystemTask
  else none

def losSemPend (interrupt : Bool) (sem timeout : Nat) : Machine × Next :=
  if sem ≥ machine.sched.config.semLimit then (machine, .returns (.error .semInvalid))
  else
    match machine.osSemValidCheck interrupt sem with
    | some code => (machine, .returns (.error code))
    | none =>
        if (machine.allSem sem).semCount > 0 then
          (((machine.modifySem sem fun semCB => { semCB with semCount := semCB.semCount - 1 }).record
            (.semGranted sem machine.runTask)).record (.semPendOk sem machine.runTask), .returns .ok)
        else if timeout = 0 then (machine, .returns (.error .semUnavailable))
        else
          (machine.withSched (machine.sched.osSchedTaskWait (.semList sem) timeout),
            .schedules (.semPend sem))

/-- `LOS_SemPend` after `LOS_Schedule`. -/
def losSemPendResumed (sem : Nat) : Machine × Next :=
  if (machine.sched.status machine.runTask).timeout then
    (machine.withSched (machine.sched.modifyStatus machine.runTask fun status =>
      { status with timeout := false }), .returns (.error .semTimeout))
  else (machine.record (.semPendOk sem machine.runTask), .returns .ok)

def losSemPost (sem : Nat) : Machine × Next :=
  if sem ≥ machine.sched.config.semLimit then (machine, .returns (.error .semInvalid))
  else if !(machine.allSem sem).used then (machine, .returns (.error .semInvalid))
  else if (machine.allSem sem).maxSemCount = (machine.allSem sem).semCount then
    (machine, .returns (.error .semOverflow))
  else
    match machine.sched.firstWaiter (.semList sem) with
    | some resumedTask =>
        (((machine.withSched (machine.sched.osSchedTaskWake resumedTask)).record
          (.semPosted sem)).record (.semGranted sem resumedTask), .schedules (.finish .ok))
    | none =>
        ((machine.modifySem sem fun semCB => { semCB with semCount := semCB.semCount + 1 }).record
          (.semPosted sem), .returns .ok)

/-! ### Mutexes -/

def osMuxValidCheck (interrupt : Bool) (mux : Nat) : Option Errno :=
  if !(machine.allMux mux).used then some .muxInvalid
  else if interrupt then some .muxInInterr
  else if machine.sched.losTaskLock ≠ 0 then some .muxPendInLock
  else if (machine.sched.status machine.runTask).systemTask then some .muxPendInSystemTask
  else none

/-- The boost of `LOS_MuxPend`: an owner that is less urgent than the running task gets its
priority. -/
def boostOwner (owner : Nat) : Sched :=
  if (machine.sched.tcb owner).priority > (machine.sched.tcb machine.runTask).priority then
    (machine.sched.osSchedModifyTaskSchedParam owner
      (machine.sched.tcb machine.runTask).priority).1
  else machine.sched

/-- `LOS_MuxPend`. A mutex with a count has an owner. -/
def losMuxPend (interrupt : Bool) (mux timeout : Nat) : Machine × Next :=
  if mux ≥ machine.sched.config.muxLimit then (machine, .returns (.error .muxInvalid))
  else
    match machine.osMuxValidCheck interrupt mux with
    | some code => (machine, .returns (.error code))
    | none =>
        if (machine.allMux mux).muxCount = 0 then
          (((machine.modifyMux mux fun muxCB =>
              { muxCB with
                muxCount := muxCB.muxCount + 1
                owner := some machine.runTask
                priority := (machine.sched.tcb machine.runTask).priority }).record
            (.muxGranted mux machine.runTask)).record (.muxPendOk mux machine.runTask), .returns .ok)
        else if (machine.allMux mux).owner = some machine.runTask then
          (((machine.modifyMux mux fun muxCB =>
              { muxCB with muxCount := (muxCB.muxCount + 1) % 2 ^ 16 }).record
            (.muxGranted mux machine.runTask)).record (.muxPendOk mux machine.runTask), .returns .ok)
        else if timeout = 0 then (machine, .returns (.error .muxUnavailable))
        else
          let boosted :=
            match (machine.allMux mux).owner with
            | some owner => machine.boostOwner owner
            | none => machine.sched.losAssert false
          (machine.withSched (boosted.osSchedTaskWait (.muxList mux) timeout),
            .schedules (.muxPend mux))

/-- `LOS_MuxPend` after `LOS_Schedule`. -/
def losMuxPendResumed (mux : Nat) : Machine × Next :=
  if (machine.sched.status machine.runTask).timeout then
    (machine.withSched (machine.sched.modifyStatus machine.runTask fun status =>
      { status with timeout := false }), .returns (.error .muxTimeout))
  else (machine.record (.muxPendOk mux machine.runTask), .returns .ok)

/-- The restoration of `LOS_MuxPost`: an owner that does not run at the saved priority gets
it. -/
def restoreOwner (owner priority : Nat) : Sched :=
  if (machine.sched.tcb owner).priority ≠ priority then
    (machine.sched.osSchedModifyTaskSchedParam owner priority).1
  else machine.sched

def losMuxPost (interrupt : Bool) (mux : Nat) : Machine × Next :=
  if mux ≥ machine.sched.config.muxLimit then (machine, .returns (.error .muxInvalid))
  else if !(machine.allMux mux).used then (machine, .returns (.error .muxInvalid))
  else if interrupt then (machine, .returns (.error .muxInInterr))
  else if (machine.allMux mux).muxCount = 0 ∨ (machine.allMux mux).owner ≠ some machine.runTask then
    (machine, .returns (.error .muxInvalid))
  else if (machine.allMux mux).muxCount - 1 ≠ 0 then
    ((machine.modifyMux mux fun muxCB => { muxCB with muxCount := muxCB.muxCount - 1 }).record
      (.muxPosted mux machine.runTask), .returns .ok)
  else
    let restored := machine.restoreOwner machine.runTask (machine.allMux mux).priority
    match restored.firstWaiter (.muxList mux) with
    | some resumedTask =>
        ((((machine.modifyMux mux fun muxCB =>
            { muxCB with
              muxCount := 1
              owner := some resumedTask
              priority := (restored.tcb resumedTask).priority }).withSched
          (restored.osSchedTaskWake resumedTask)).record (.muxPosted mux machine.runTask)).record
          (.muxGranted mux resumedTask), .schedules (.finish .ok))
    | none =>
        (((machine.modifyMux mux fun muxCB => { muxCB with muxCount := 0, owner := none }).withSched
          restored).record (.muxPosted mux machine.runTask), .returns .ok)

/-! ### Events -/

def losWaitmodeAnd : BitVec 32 := 4

def losWaitmodeOr : BitVec 32 := 2

def losWaitmodeClr : BitVec 32 := 1

def losErrtypeError : BitVec 32 := 0x02000000

/-- The bits `LOS_EventPoll` finds. -/
def eventBits (eventID eventMask mode : BitVec 32) : BitVec 32 :=
  if mode &&& losWaitmodeOr ≠ 0 then
    if eventID &&& eventMask ≠ 0 then eventID &&& eventMask else 0
  else if eventMask ≠ 0 ∧ eventMask = eventID &&& eventMask then eventID &&& eventMask
  else 0

/-- `LOS_EventPoll`: the bits it finds, and the event with these bits cleared when the mode says
so. -/
def losEventPoll (eventID eventMask mode : BitVec 32) : BitVec 32 × BitVec 32 :=
  if eventBits eventID eventMask mode ≠ 0 ∧ mode &&& losWaitmodeClr ≠ 0 then
    (eventBits eventID eventMask mode, eventID &&& ~~~(eventBits eventID eventMask mode))
  else (eventBits eventID eventMask mode, eventID)

def osEventReadParamCheck (eventMask mode : BitVec 32) : Option Errno :=
  if eventMask = 0 then some .eventEventmaskInvalid
  else if eventMask &&& losErrtypeError ≠ 0 then some .eventSetbitInvalid
  else if (mode &&& losWaitmodeOr ≠ 0 ∧ mode &&& losWaitmodeAnd ≠ 0) ∨
      mode &&& ~~~(losWaitmodeOr ||| losWaitmodeAnd ||| losWaitmodeClr) ≠ 0 ∨
      mode &&& (losWaitmodeOr ||| losWaitmodeAnd) = 0 then some .eventFlagsInvalid
  else none

def losEventRead (interrupt : Bool) (event : Nat) (eventMask mode : BitVec 32) (timeOut : Nat) :
    Machine × Next :=
  match osEventReadParamCheck eventMask mode with
  | some code => (machine, .returns (.error code))
  | none =>
      if interrupt then (machine, .returns (.error .eventReadInInterrupt))
      else if (machine.sched.status machine.runTask).systemTask then
        (machine, .returns (.error .eventReadInSystemTask))
      else
        let polled := losEventPoll (machine.allEvent event).uwEventID eventMask mode
        let taken := machine.setEvent event polled.2
        if polled.1 = 0 then
          if timeOut = 0 then (taken, .returns (.events polled.1))
          else if machine.sched.losTaskLock ≠ 0 then (taken, .returns (.error .eventReadInLock))
          else
            (taken.withSched ((machine.sched.modify machine.runTask fun taskCB =>
              { taskCB with eventMask := eventMask, eventMode := mode }).osSchedTaskWait
                (.eventList event) timeOut), .schedules (.eventRead event eventMask mode))
        else (taken, .returns (.events polled.1))

/-- `LOS_EventRead` after `LOS_Schedule`. -/
def losEventReadResumed (event : Nat) (eventMask mode : BitVec 32) : Machine × Next :=
  if (machine.sched.status machine.runTask).timeout then
    (machine.withSched (machine.sched.modifyStatus machine.runTask fun status =>
      { status with timeout := false }), .returns (.error .eventReadTimeout))
  else
    let polled := losEventPoll (machine.allEvent event).uwEventID eventMask mode
    (machine.setEvent event polled.2, .returns (.events polled.1))

/-- The test of `LOS_EventWrite` on one reader: `events` are the bits just written, `eventID` is
the event with them. -/
def wakesReader (taskCB : LosTaskCB) (events eventID : BitVec 32) : Bool :=
  (decide (taskCB.eventMode &&& losWaitmodeOr ≠ 0) && decide (taskCB.eventMask &&& events ≠ 0)) ||
    (decide (taskCB.eventMode &&& losWaitmodeAnd ≠ 0) &&
      decide (taskCB.eventMask &&& eventID = taskCB.eventMask))

/-- The loop of `LOS_EventWrite` over the readers, with its exit flag. -/
def wakeReaders (events eventID : BitVec 32) : List Nat → Sched → Sched × Bool
  | [], sched => (sched, false)
  | reader :: rest, sched =>
      if wakesReader (sched.tcb reader) events eventID then
        ((wakeReaders events eventID rest (sched.osSchedTaskWake reader)).1, true)
      else wakeReaders events eventID rest sched

def losEventWrite (event : Nat) (events : BitVec 32) : Machine × Next :=
  if events &&& losErrtypeError ≠ 0 then (machine, .returns (.error .eventSetbitInvalid))
  else
    let eventID := (machine.allEvent event).uwEventID ||| events
    let written := wakeReaders events eventID (machine.sched.chains.nodes (.wait (.eventList event)))
      machine.sched
    ((machine.setEvent event eventID).withSched written.1,
      if written.2 then .schedules (.finish .ok) else .returns .ok)

def losEventClear (event : Nat) (eventMask : BitVec 32) : Machine × Next :=
  (machine.setEvent event ((machine.allEvent event).uwEventID &&& eventMask), .returns .ok)

/-! ### Message queues -/

def securecMemMaxLen : Nat := 0x7FFFFFFF

/-- The parameter check of a queue call, `OsQueueReadParameterCheck` or
`OsQueueWriteParameterCheck`. -/
def osQueueParameterCheck (interrupt : Bool) (queue : Nat) (operate : QueueOperate)
    (timeOut : Nat) : Option Errno :=
  if queue ≥ machine.sched.config.queueLimit then some .queueInvalid
  else if operate.bufferSize = 0 then
    match operate.readWrite with
    | .read => some .queueReadsizeIszero
    | .write => some .queueWritesizeIszero
  else if timeOut ≠ 0 ∧ interrupt then
    match operate.readWrite with
    | .read => some .queueReadInInterrupt
    | .write => some .queueWriteInInterrupt
  else none

def osQueueOperateParamCheck (queueCB : LosQueueCB) (operate : QueueOperate) : Option Errno :=
  if !queueCB.inUse then some .queueNotCreate
  else if operate.readWrite = .write ∧ operate.bufferSize > queueCB.queueSize - 4 then
    some .queueWriteSizeTooBig
  else if operate.bufferSize ≥ securecMemMaxLen then some .queueBufferSizeTooBig
  else none

/-- `OsQueueBufferOperate`, with its event. -/
def osQueueBufferOperate (queue : Nat) : QueueOperate → Machine
  | .readHead bufferSize =>
      (machine.modifyQueue queue fun queueCB => (queueCB.readHead bufferSize).1).record
        (.queueRead queue ((machine.allQueue queue).readHead bufferSize).2)
  | .writeHead data =>
      (machine.modifyQueue queue fun queueCB => queueCB.writeHead data).record
        (.queueWritten queue true data)
  | .writeTail data =>
      (machine.modifyQueue queue fun queueCB => queueCB.writeTail data).record
        (.queueWritten queue false data)

/-- The end of `OsQueueOperate`: a task waiting for the other direction is woken, or there is one
more node for it. -/
def wakeOtherDirection (queue : Nat) (readWrite : ReadWrite) : Machine × Next :=
  match machine.sched.firstWaiter (.readWriteList queue readWrite.other) with
  | some resumedTask =>
      (machine.withSched (machine.sched.osSchedTaskWake resumedTask), .schedules (.finish .ok))
  | none =>
      (machine.modifyQueue queue fun queueCB =>
        queueCB.setCnt readWrite.other (queueCB.readWriteableCnt readWrite.other + 1),
        .returns .ok)

def osQueueOperate (queue : Nat) (operate : QueueOperate) (timeOut : Nat) : Machine × Next :=
  match osQueueOperateParamCheck (machine.allQueue queue) operate with
  | some code => (machine, .returns (.error code))
  | none =>
      if (machine.allQueue queue).readWriteableCnt operate.readWrite = 0 then
        if timeOut = 0 then
          (machine, .returns (.error
            (match operate.readWrite with
            | .read => .queueIsempty
            | .write => .queueIsfull)))
        else if machine.sched.losTaskLock ≠ 0 then (machine, .returns (.error .queuePendInLock))
        else
          (machine.withSched
            (machine.sched.osSchedTaskWait (.readWriteList queue operate.readWrite) timeOut),
            .schedules (.queueOperate queue operate))
      else
        ((machine.modifyQueue queue fun queueCB =>
          queueCB.setCnt operate.readWrite
            (queueCB.readWriteableCnt operate.readWrite - 1)).osQueueBufferOperate queue
              operate).wakeOtherDirection queue operate.readWrite

/-- `OsQueueOperate` after `LOS_Schedule`. -/
def osQueueOperateResumed (queue : Nat) (operate : QueueOperate) : Machine × Next :=
  if (machine.sched.status machine.runTask).timeout then
    (machine.withSched (machine.sched.modifyStatus machine.runTask fun status =>
      { status with timeout := false }), .returns (.error .queueTimeout))
  else (machine.osQueueBufferOperate queue operate).wakeOtherDirection queue operate.readWrite

/-- `LOS_QueueReadCopy`, `LOS_QueueWriteHeadCopy` and `LOS_QueueWriteCopy`, by the operation. -/
def losQueueCopy (interrupt : Bool) (queue : Nat) (operate : QueueOperate) (timeOut : Nat) :
    Machine × Next :=
  match machine.osQueueParameterCheck interrupt queue operate timeOut with
  | some code => (machine, .returns (.error code))
  | none => machine.osQueueOperate queue operate timeOut

/-- `LOS_QueueDelete`; `memFree` is the result of `LOS_MemFree` on the memory of the queue. -/
def losQueueDelete (queue : Nat) (memFree : Bool) : Machine × Next :=
  if queue ≥ machine.sched.config.queueLimit then (machine, .returns (.error .queueNotFound))
  else if !(machine.allQueue queue).inUse then (machine, .returns (.error .queueNotCreate))
  else if (machine.sched.firstWaiter (.readWriteList queue .read)).isSome then
    (machine, .returns (.error .queueInTskuse))
  else if (machine.sched.firstWaiter (.readWriteList queue .write)).isSome then
    (machine, .returns (.error .queueInTskuse))
  else if (machine.sched.firstWaiter (.memList queue)).isSome then
    (machine, .returns (.error .queueInTskuse))
  else if (machine.allQueue queue).readWriteableCnt .write +
      (machine.allQueue queue).readWriteableCnt .read ≠ (machine.allQueue queue).queueLen then
    (machine, .returns (.error .queueInTskwrite))
  else
    (machine.modifyQueue queue fun queueCB => { queueCB with inUse := false },
      .returns (if memFree then .ok else .error .memFreeFailed))

end Machine

end TowerSafe.Kernel
