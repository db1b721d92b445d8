/-
This file puts the calls together to a transition system. One processor runs one task at a time;
interrupts come wherever a call is outside its critical sections, so every critical section is
one step. A call made by an interrupt handler that wants to schedule asks for a switch, which is
made when the last handler ends and before the running task goes on. A handler that creates a
task can be interrupted between the two critical sections of the creation.

The idle task makes no calls but for recycling finished tasks, which `LOS_TaskCreateOnly` does
as well; a round of that loop can come at any time. No handler locks the scheduler. Once
`failed` is set the system has stopped.
-/

import TowerSafe.Kernel.Calls
import TowerSafe.Kernel.TaskCalls
import TowerSafe.Library.Transition

namespace TowerSafe.Kernel

open Library Option

/-- A call with its arguments. -/
inductive Operation where
  | semPend (sem timeout : Nat)
  | semPost (sem : Nat)
  | muxPend (mux timeout : Nat)
  | muxPost (mux : Nat)
  | eventRead (event : Nat) (eventMask mode : BitVec 32) (timeOut : Nat)
  | eventWrite (event : Nat) (events : BitVec 32)
  | eventClear (event : Nat) (eventMask : BitVec 32)
  | queueCopy (queue : Nat) (operate : QueueOperate) (timeOut : Nat)
  | queueDelete (queue : Nat) (memFree : Bool)
  | taskCreateOnly (param : TskInitParam)
  | taskCreate (param : TskInitParam)
  | taskResume (taskID : Nat)
  | taskSuspend (taskID : Nat)
  | taskDelete (taskID : Nat)
  | taskJoin (taskID : Nat)
  | taskDetach (taskID : Nat)
  | taskYield
  | taskDelay (tick : Nat)
  | taskPriSet (taskID taskPrio : Nat)
  | taskLock
  | taskUnlock
  deriving DecidableEq

/-- Whether an interrupt handler may make a call. -/
def Operation.inInterrupt : Operation → Bool
  | taskLock => false
  | taskUnlock => false
  | _ => true

/-- Whether a call joins or detaches a task. -/
def Operation.joins : Operation → Bool
  | taskJoin _ => true
  | taskDetach _ => true
  | _ => false

/-- A step of the system. -/
inductive Action where
  /-- The running task makes a call. -/
  | call (operation : Operation)
  /-- The running task comes to `LOS_Schedule`. -/
  | schedule
  /-- The running task comes to the rest of its call. -/
  | resume
  /-- The running task comes to the second critical section of `LOS_TaskCreate`. -/
  | enqueue
  /-- An interrupt handler makes a call. -/
  | interrupt (operation : Operation)
  /-- An interrupt handler comes to the second critical section of `LOS_TaskCreate`. -/
  | interruptEnqueue (taskID : Nat)
  /-- The last interrupt handler ends with a switch. -/
  | switch
  /-- A tick interrupt, for the sort link or for the time slice. -/
  | tick (scanTimer : Bool)
  /-- Time passes. -/
  | elapse (cycles : Nat)
  /-- Power management is turned on or off. -/
  | setPmMode (pmMode : Bool)
  /-- A round of `OsRecycleFinishedTask`. -/
  | recycle
  deriving DecidableEq

/-- The call a step makes, if it makes one. -/
def Action.operation : Action → Option Operation
  | call operation => some operation
  | interrupt operation => some operation
  | _ => none

/-- A step that makes no other calls than those of a kind, or belongs to the end of a call, to the
switch or to the tick. -/
def Action.within (allowed : Operation → Bool) : Action → Bool
  | call operation => allowed operation
  | interrupt operation => allowed operation
  | schedule => true
  | resume => true
  | switch => true
  | tick _ => true
  | elapse _ => true
  | enqueue => false
  | interruptEnqueue _ => false
  | setPmMode _ => false
  | recycle => false

theorem Action.within_operation {allowed : Operation → Bool} {action : Action}
    (within : action.within allowed = true) {operation : Operation}
    (made : action.operation = some operation) : allowed operation = true := by
  cases action with
  | call other =>
    obtain rfl := some.inj made
    exact within
  | interrupt other =>
    obtain rfl := some.inj made
    exact within
  | _ => exact absurd made nofun

namespace Machine

variable (machine : Machine)

/-- The first part of a call. -/
def enter (interrupt : Bool) : Operation → Machine × Next
  | .semPend sem timeout => machine.losSemPend interrupt sem timeout
  | .semPost sem => machine.losSemPost sem
  | .muxPend mux timeout => machine.losMuxPend interrupt mux timeout
  | .muxPost mux => machine.losMuxPost interrupt mux
  | .eventRead event eventMask mode timeOut =>
      machine.losEventRead interrupt event eventMask mode timeOut
  | .eventWrite event events => machine.losEventWrite event events
  | .eventClear event eventMask => machine.losEventClear event eventMask
  | .queueCopy queue operate timeOut => machine.losQueueCopy interrupt queue operate timeOut
  | .queueDelete queue memFree => machine.losQueueDelete queue memFree
  | .taskCreateOnly param => machine.losTaskCreateOnly param
  | .taskCreate param => machine.losTaskCreate param
  | .taskResume taskID => machine.losTaskResume taskID
  | .taskSuspend taskID => machine.losTaskSuspend taskID
  | .taskDelete taskID => machine.losTaskDelete taskID
  | .taskJoin taskID => machine.losTaskJoin interrupt taskID
  | .taskDetach taskID => machine.losTaskDetach interrupt taskID
  | .taskYield => machine.losTaskYield
  | .taskDelay tick => machine.losTaskDelay interrupt tick
  | .taskPriSet taskID taskPrio => machine.losTaskPriSet taskID taskPrio
  | .taskLock => machine.losTaskLock
  | .taskUnlock => machine.losTaskUnlock

/-- The rest of a call. -/
def leave : Cont → Machine × Next
  | .finish ret => (machine, .returns ret)
  | .semPend sem => machine.losSemPendResumed sem
  | .muxPend mux => machine.losMuxPendResumed mux
  | .queueOperate queue operate => machine.osQueueOperateResumed queue operate
  | .eventRead event eventMask mode => machine.losEventReadResumed event eventMask mode
  | .taskJoin taskID => machine.losTaskJoinResumed taskID
  | .taskDetach taskID => machine.losTaskJoin false taskID

/-- `LOS_Schedule` from an interrupt handler. -/
def requestSwitch : Machine :=
  if machine.sched.losTaskLock = 0 then
    machine.withSched { machine.sched with needSched := true }
  else machine

/-- `LOS_Schedule` outside interrupt handlers. -/
def losSchedule : Machine :=
  if machine.sched.losTaskLock = 0 then
    machine.withSched { machine.sched.osSchedTaskSwitch with needSched := false }
  else machine

/-- Whether the running task goes on: no handler is at work and no switch is due. -/
def goesOn : Bool :=
  !machine.sched.failed && !machine.sched.needSched && machine.interruptCreating.isEmpty

end Machine

/-- Where the end of a critical section leaves the task that was in it. -/
def Next.pc : Next → Pc
  | returns _ => .user
  | schedules cont => .schedule cont
  | continues cont => .resume cont
  | creates taskID => .creating taskID

namespace Machine

variable (machine : Machine)

/-- The task that runs after a critical section is where the section left it. -/
def proceed (result : Machine × Next) : Machine :=
  result.1.setPc result.1.runTask result.2.pc

/-- An interrupt handler goes on after the first part of a call. -/
def handle (result : Machine × Next) : Machine :=
  match result.2 with
  | .returns _ => result.1
  | .schedules _ => result.1.requestSwitch
  | .continues _ => result.1
  | .creates taskID =>
      { result.1 with interruptCreating := taskID :: result.1.interruptCreating }

/-- The step of the running task, by where it is in its program. -/
def runStep : Action → Pc → Option Machine
  | .call operation, .user =>
      if machine.runTask = machine.sched.config.idleTaskID then none
      else some (proceed (machine.enter false operation))
  | .schedule, .schedule cont =>
      some (machine.setPc machine.runTask (.resume cont)).losSchedule
  | .resume, .resume cont => some (proceed (machine.leave cont))
  | .enqueue, .creating taskID =>
      some ((machine.withSched (machine.sched.osSchedTaskEnQueue taskID)).setPc machine.runTask
        (.schedule (.finish .ok)))
  | _, _ => none

def step (action : Action) : Option Machine :=
  if machine.sched.failed then none
  else
    match action with
    | .interrupt operation =>
        if operation.inInterrupt then some (handle (machine.enter true operation)) else none
    | .interruptEnqueue taskID =>
        if taskID ∈ machine.interruptCreating then
          some (({ machine with
            interruptCreating := machine.interruptCreating.erase taskID }.withSched
              (machine.sched.osSchedTaskEnQueue taskID)).requestSwitch)
        else none
    | .switch =>
        if machine.sched.needSched && machine.interruptCreating.isEmpty then
          some machine.losSchedule
        else none
    | .tick scanTimer => some (machine.withSched (machine.sched.losSchedTickHandler scanTimer))
    | .elapse cycles =>
        some (machine.withSched { machine.sched with cycle := machine.sched.cycle + cycles })
    | .setPmMode pmMode => some (machine.withSched { machine.sched with pmMode := pmMode })
    | .recycle => some (machine.withSched machine.sched.osRecycleFinishedTask)
    | action => if machine.goesOn then machine.runStep action (machine.pc machine.runTask) else none

/-- What each step does, and when it is enabled. -/
inductive Steps (machine : Machine) : Action → Machine → Prop
  | call {operation : Operation} (goes : machine.goesOn = true)
      (inside : machine.pc machine.runTask = .user)
      (real : machine.runTask ≠ machine.sched.config.idleTaskID) :
      Steps machine (.call operation) (proceed (machine.enter false operation))
  | schedule {cont : Cont} (goes : machine.goesOn = true)
      (inside : machine.pc machine.runTask = .schedule cont) :
      Steps machine .schedule (machine.setPc machine.runTask (.resume cont)).losSchedule
  | resume {cont : Cont} (goes : machine.goesOn = true)
      (inside : machine.pc machine.runTask = .resume cont) :
      Steps machine .resume (proceed (machine.leave cont))
  | enqueue {taskID : Nat} (goes : machine.goesOn = true)
      (inside : machine.pc machine.runTask = .creating taskID) :
      Steps machine .enqueue ((machine.withSched (machine.sched.osSchedTaskEnQueue taskID)).setPc
        machine.runTask (.schedule (.finish .ok)))
  | interrupt {operation : Operation} (may : operation.inInterrupt = true) :
      Steps machine (.interrupt operation) (handle (machine.enter true operation))
  | interruptEnqueue {taskID : Nat} (member : taskID ∈ machine.interruptCreating) :
      Steps machine (.interruptEnqueue taskID)
        (({ machine with interruptCreating := machine.interruptCreating.erase taskID }.withSched
          (machine.sched.osSchedTaskEnQueue taskID)).requestSwitch)
  | switch (due : machine.sched.needSched = true) (last : machine.interruptCreating = []) :
      Steps machine .switch machine.losSchedule
  | tick {scanTimer : Bool} : Steps machine (.tick scanTimer)
      (machine.withSched (machine.sched.losSchedTickHandler scanTimer))
  | elapse {cycles : Nat} : Steps machine (.elapse cycles)
      (machine.withSched { machine.sched with cycle := machine.sched.cycle + cycles })
  | setPmMode {pmMode : Bool} : Steps machine (.setPmMode pmMode)
      (machine.withSched { machine.sched with pmMode := pmMode })
  | recycle : Steps machine .recycle (machine.withSched machine.sched.osRecycleFinishedTask)

variable {machine} {action : Action} {next : Machine}

theorem steps_of_runStep (goes : machine.goesOn = true)
    (result : machine.runStep action (machine.pc machine.runTask) = some next) :
    Steps machine action next := by
  rw [runStep.eq_def] at result
  split at result
  · rename_i inside
    split at result
    · exact absurd result (by simp)
    · obtain rfl := some.inj result
      exact .call goes inside ‹_›
  · rename_i inside
    obtain rfl := some.inj result
    exact .schedule goes inside
  · rename_i inside
    obtain rfl := some.inj result
    exact .resume goes inside
  · rename_i inside
    obtain rfl := some.inj result
    exact .enqueue goes inside
  · exact absurd result (by simp)

theorem steps_of_step (result : machine.step action = some next) :
    machine.sched.failed = false ∧ Steps machine action next := by
  rw [step.eq_def] at result
  by_cases going : machine.sched.failed = true
  · rw [if_pos going] at result
    exact absurd result (by simp)
  rw [if_neg going] at result
  refine ⟨Bool.not_eq_true _ ▸ going, ?_⟩
  have goes : (if machine.goesOn then machine.runStep action (machine.pc machine.runTask)
      else none) = some next → Steps machine action next := by
    intro result
    by_cases goes : machine.goesOn = true
    · rw [if_pos goes] at result
      exact steps_of_runStep goes result
    · rw [if_neg goes] at result
      exact absurd result (by simp)
  cases action with
  | call operation => exact goes result
  | schedule => exact goes result
  | resume => exact goes result
  | enqueue => exact goes result
  | interrupt operation =>
    by_cases may : operation.inInterrupt = true
    · simp only [may, if_true, Option.some.injEq] at result
      exact result ▸ .interrupt may
    · simp [may] at result
  | interruptEnqueue taskID =>
    by_cases member : taskID ∈ machine.interruptCreating
    · simp only [member, if_true, Option.some.injEq] at result
      exact result ▸ .interruptEnqueue member
    · simp [member] at result
  | switch =>
    by_cases due : (machine.sched.needSched && machine.interruptCreating.isEmpty) = true
    · simp only [due, if_true, Option.some.injEq] at result
      rw [Bool.and_eq_true, List.isEmpty_iff] at due
      exact result ▸ .switch due.1 due.2
    · simp [due] at result
  | tick scanTimer => exact some.inj result ▸ .tick
  | elapse cycles => exact some.inj result ▸ .elapse
  | setPmMode pmMode => exact some.inj result ▸ .setPmMode
  | recycle => exact some.inj result ▸ .recycle

/-- The running task goes on only when no switch is due and no handler is at work. -/
theorem goesOn_iff : machine.goesOn = true ↔ machine.sched.failed = false ∧
    machine.sched.needSched = false ∧ machine.interruptCreating = [] := by
  simp [goesOn, and_assoc]

end Machine

end TowerSafe.Kernel
