/-
This file is about what the scheduler's lists hold in every state of every run of calls, interrupts
and ticks: the ready queues hold the ready tasks and nothing else, a switch runs a most urgent one,
a wait list holds tasks inside the call that waits there, and a new task takes a block that nobody
uses. A run stops where an `LOS_ASSERT` fails or a list is corrupted.
-/

import TowerSafe.Kernel.Runs

namespace TowerSafe.Kernel

open Library

/-- The machine is reached by steps in any order, and goes on. -/
structure Ongoing (machine : Machine) : Prop where
  reached : Reachable Machine.step (fun _ _ => True) Initial machine
  going : machine.sched.failed = false

theorem Ongoing.wellFormed {machine : Machine} (ongoing : Ongoing machine) :
    WellFormed True machine :=
  (@reachable_invariant True (fun _ _ => True) Initial (fun _ => True) machine
    (fun _ initial => ⟨initial, trivial⟩) (fun _ _ _ _ _ _ => trivial)
    (fun _ _ _ _ _ _ _ => trivial) ongoing.reached).2 ongoing.going

/-! ### The ready queues -/

/-- A ready task is once in the queue of its priority and waits for nothing, no other task is in a
queue, and the bitmap tells which queues are not empty. -/
structure ReadyQueues (sched : Sched) : Prop where
  once : ∀ task priority, (sched.chains.nodes (.priQueue priority)).count task =
    if (sched.status task).ready = true ∧ task ≠ sched.config.idleTaskID ∧
      priority = (sched.tcb task).priority then 1 else 0
  calm : ∀ task, (sched.status task).ready = true →
    (sched.status task).pend = false ∧ (sched.status task).suspend = false ∧
      (sched.status task).delay = false ∧ (sched.status task).pendTime = false ∧
        (sched.status task).unused = false
  marked : ∀ priority, sched.chains.nodes (.priQueue priority) ≠ [] ↔
    priority ≤ osTaskPriorityLowest ∧ sched.queueBitmap.getLsbD (31 - priority) = true

theorem Sched.Sound.readyQueues {sched : Sched} (sound : sched.Sound) : ReadyQueues sched where
  once task priority := by
    have member := sched.chains.mem_iff task (.priQueue priority)
    split
    · rename_i queued
      obtain ⟨ready, real, rfl⟩ := queued
      have home := (sound.placed task).home_of_ready ready real
      exact List.count_eq_one_of_mem (sched.chains.nodup _) (member.mpr home)
    · rename_i other
      refine List.count_eq_zero.mpr fun linked => other ?_
      obtain ⟨ready, -, real, same, -⟩ := sound.queued (member.mp linked)
      exact ⟨ready, real, same⟩
  calm task ready := by
    have placed := sound.placed task
    obtain ⟨suspend, delay, pendTime⟩ := placed.ready ready
    refine ⟨sound.pend_of_ready ready, suspend, delay, pendTime, ?_⟩
    by_cases idle : task = sched.config.idleTaskID
    · exact (placed.idle idle).2.2.2.2
    · exact (sound.queued (placed.home_of_ready ready idle)).2.1
  marked priority := by
    rw [ne_eq, Sched.nodes_priQueue_eq_nil_iff, not_not]
    constructor
    · rintro ⟨task, linked⟩
      have low := (sound.queued linked).2.2.2.2
      exact ⟨low, (sound.marked priority low).mpr ⟨task, linked⟩⟩
    · rintro ⟨low, set⟩
      exact (sound.marked priority low).mp set

/-- The ready queues are in order in every state of every run. -/
theorem readyQueues_of_reachable {machine : Machine} (ongoing : Ongoing machine) :
    ReadyQueues machine.sched :=
  ongoing.wellFormed.sound.readyQueues

/-! ### The switch -/

/-- The running task can run and no task in a ready queue is more urgent: the idle task runs only
when the queues are empty. -/
structure MostUrgent (sched : Sched) : Prop where
  runnable : Runnable (sched.status sched.runTask)
  running : (sched.status sched.runTask).running = true
  first : ∀ priority, ∀ task ∈ sched.chains.nodes (.priQueue priority),
    sched.runTask ≠ sched.config.idleTaskID ∧ (sched.tcb sched.runTask).priority ≤ priority

section

variable {sched : Sched} (sound : sched.Sound) (going : sched.osSchedTaskSwitch.failed = false)
include sound going

theorem Sched.Sound.switch_first {priority task : Nat}
    (linked : sched.osSchedTaskSwitch.home task = some (.priQueue priority)) :
    sched.osSchedTaskSwitch.runTask ≠ sched.osSchedTaskSwitch.config.idleTaskID ∧
      (sched.osSchedTaskSwitch.tcb sched.osSchedTaskSwitch.runTask).priority ≤ priority := by
  have differs : task ≠ sched.parked.osGetTopTask := by
    rintro rfl
    have ready := ((sound.switch going).queued linked).1
    rw [← Sched.osSchedTaskSwitch_runTask, (sound.switch_runnable going).ready] at ready
    exact absurd ready (by simp)
  have before : sched.parked.home task = some (.priQueue priority) := by
    rw [← linked, Sched.osSchedTaskSwitch_eq,
      (Sched.osSchedTaskDeQueue_touches _ _).home task differs, Sched.runNewTask_home]
  have parked := sound.parked going
  have config : sched.parked.config = sched.config :=
    congrArg Globals.config Sched.parked_touches.globals
  rcases parked.topTask with ⟨best, top, least⟩ | ⟨-, none⟩
  · obtain ⟨-, -, real, same, -⟩ := parked.queued top
    rw [Sched.osSchedTaskSwitch_runTask, Sched.osSchedTaskSwitch_toGlobals]
    refine ⟨config ▸ real, le_trans (le_of_eq ?_) (least task priority before)⟩
    rw [same]
    have views : sched.osSchedTaskSwitch.view = sched.parked.view :=
      Sched.osSchedTaskSwitch_view.trans
        (Sched.parkRunTask_view.trans Sched.osTimeSliceUpdate_view).symm
    exact congrArg (fun view => (view sched.parked.osGetTopTask).priority) views
  · exact absurd before (none task priority)

/-- The task that ran before is still there when it can go on. -/
theorem Sched.Sound.switch_keeps (clear : (sched.status sched.runTask).blocked = false)
    (awake : (sched.status sched.runTask).pendTime = false ∧
      (sched.status sched.runTask).delay = false)
    (real : sched.runTask ≠ sched.config.idleTaskID) :
    sched.osSchedTaskSwitch.runTask = sched.runTask ∨
      sched.runTask ∈ sched.osSchedTaskSwitch.chains.nodes
        (.priQueue (sched.tcb sched.runTask).priority) := by
  by_cases stays : sched.runTask = sched.parked.osGetTopTask
  · exact .inl (Sched.osSchedTaskSwitch_runTask.trans stays.symm)
  refine .inr ((sched.osSchedTaskSwitch.chains.mem_iff _ _).mpr ?_)
  have enqueued : (sched.parked.status sched.runTask).ready = true := by
    have same := @Sched.osTimeSliceUpdate_status sched sched.runTask
    rw [Sched.parked, Sched.parkRunTask]
    simp only [Sched.osTimeSliceUpdate_touches.globals, same, awake, clear]
    obtain ⟨slice, tcb⟩ := (sched.osTimeSliceUpdate sched.runTask).osSchedTaskEnQueue_tcb
      sched.runTask
    show ((Sched.osSchedTaskEnQueue _ _).status _).ready = true
    rw [Sched.status, tcb, Function.update_self]
  have ready : (sched.osSchedTaskSwitch.status sched.runTask).ready = true := by
    obtain ⟨running, startTime, tcb⟩ :=
      @Sched.runNewTask_tcb sched.parked sched.parked.osGetTopTask sched.runTask
    rw [Sched.osSchedTaskSwitch_eq, Sched.osSchedTaskDeQueue_status,
      Function.update_of_ne stays, Sched.status, tcb]
    exact enqueued
  have config : sched.osSchedTaskSwitch.config = sched.config := by
    rw [Sched.osSchedTaskSwitch_toGlobals]
  have priority : (sched.osSchedTaskSwitch.tcb sched.runTask).priority =
      (sched.tcb sched.runTask).priority :=
    congrArg (fun view => (view sched.runTask).priority) Sched.osSchedTaskSwitch_view
  rw [← priority]
  exact ((sound.switch going).placed sched.runTask).home_of_ready ready (config ▸ real)

end

theorem switch_of_step {machine next : Machine} {action : Action}
    (switches : action = .schedule ∨ action = .switch)
    (unlocked : machine.sched.losTaskLock = 0) (result : machine.step action = some next) :
    next.sched = { machine.sched.osSchedTaskSwitch with needSched := false } := by
  have switched : ∀ before : Machine, before.sched = machine.sched →
      before.losSchedule.sched = { machine.sched.osSchedTaskSwitch with needSched := false } := by
    intro before same
    rw [Machine.losSchedule, same, if_pos unlocked]
    rfl
  obtain ⟨-, steps⟩ := Machine.steps_of_step result
  rcases switches with rfl | rfl
  · cases steps with
    | schedule goes inside => exact switched _ rfl
  · cases steps with
    | switch due last => exact switched _ rfl

/-- After every switch of every run the running task is a most urgent one, and the task that ran
before is running still or in the queue of its priority, unless it sleeps or is blocked. -/
theorem mostUrgent_of_switch {machine next : Machine} {action : Action} (ongoing : Ongoing machine)
    (switches : action = .schedule ∨ action = .switch)
    (unlocked : machine.sched.losTaskLock = 0) (result : machine.step action = some next)
    (going : next.sched.failed = false) :
    MostUrgent next.sched ∧
      ((machine.sched.status machine.runTask).blocked = false →
        (machine.sched.status machine.runTask).pendTime = false ∧
          (machine.sched.status machine.runTask).delay = false →
        machine.runTask ≠ machine.sched.config.idleTaskID →
        next.runTask = machine.runTask ∨ machine.runTask ∈ next.sched.chains.nodes
          (.priQueue (machine.sched.tcb machine.runTask).priority)) := by
  have wellFormed := ongoing.wellFormed
  have sound := wellFormed.sound
  have eq := switch_of_step switches unlocked result
  have going : machine.sched.osSchedTaskSwitch.failed = false := by
    rw [eq] at going
    exact going
  simp only [Machine.runTask, eq]
  refine ⟨⟨sound.switch_runnable going, ?_, fun priority task linked => ?_⟩, ?_⟩
  · exact Sched.osSchedTaskSwitch_running wellFormed.runs.running
  · exact sound.switch_first going ((Sched.chains _).mem_iff _ _ |>.mp linked)
  · exact sound.switch_keeps going

/-! ### The wait lists -/

/-- A task in a wait list is inside the call that waits there, it is not ready, and it runs only
until the switch that is due. -/
theorem waiters_inside {machine : Machine} (ongoing : Ongoing machine) {task : Nat}
    {head : WaitHead} (linked : task ∈ machine.sched.chains.nodes (.wait head)) :
    (machine.pc task).waitsIn = some head ∧ (machine.sched.status task).ready = false ∧
      (machine.sched.status task).unused = false ∧
      (task = machine.runTask → machine.sched.needSched = true ∨
        ∃ cont, machine.pc task = .schedule cont) := by
  have wellFormed := ongoing.wellFormed
  have home : machine.sched.home task = some (.wait head) :=
    (machine.sched.chains.mem_iff task _).mp linked
  obtain ⟨ready, pend, created, -⟩ := home ▸ (wellFormed.sound.placed task).place
  refine ⟨wellFormed.waits task head (Sched.view_wait_eq_some_iff.mpr home), ready, created, ?_⟩
  rintro rfl
  by_contra stays
  rw [not_or, not_exists, Bool.not_eq_true] at stays
  have runnable := wellFormed.goesOn stays.1 stays.2
  exact absurd (runnable.pend.symm.trans pend) (by simp)

/-! ### The free blocks -/

/-- A new task takes a block that no task uses, and nothing else changes. -/
theorem createTask_fresh {machine next : Machine} (ongoing : Ongoing machine) {taskID : Nat}
    {param : TskInitParam} (created : machine.createTask param = .ok (next, taskID)) :
    (machine.sched.status taskID).unused = true ∧ taskID < machine.sched.config.taskMaxNum ∧
      taskID ≠ machine.runTask ∧
      (∀ head, taskID ∈ machine.sched.chains.nodes head → head = .losFreeTask) ∧
      (next.sched.status taskID).unused = false ∧
      (∀ head, taskID ∉ next.sched.chains.nodes head) ∧
      ∀ other, other ≠ taskID → next.sched.tcb other = machine.sched.tcb other ∧
        next.sched.home other = machine.sched.home other ∧ next.pc other = machine.pc other := by
  have wellFormed := ongoing.wellFormed
  rw [Machine.createTask] at created
  split at created
  · cases created
  split at created
  · cases created
  rename_i first found
  split at created
  · cases created
  obtain ⟨rfl, rfl⟩ := Prod.mk.inj (Except.ok.inj created)
  have free : machine.sched.home first = some .losFreeTask :=
    machine.sched.chains.home_of_first found
  obtain ⟨-, -, unused, real⟩ := free ▸ (wellFormed.sound.placed first).place
  have touches : Sched.Touches first machine.sched (machine.sched.newTask first param) :=
    Sched.newTask_touches param
  refine ⟨unused, real, ?_, fun head member => ?_, ?_, fun head member => ?_, fun other differs =>
    ⟨touches.tcb other differs, touches.home other differs, Function.update_of_ne differs _ _⟩⟩
  · rintro rfl
    exact absurd ((wellFormed.runs.created real).symm.trans unused) (by simp)
  · have home := (machine.sched.chains.mem_iff first head).mp member
    exact Option.some.inj (home.symm.trans free)
  · show ((machine.sched.newTask first param).status first).unused = false
    simp [Sched.newTask, Sched.osNewTaskInit, Sched.status]
  · have home : (machine.sched.newTask first param).home first = some head :=
      ((machine.sched.newTask first param).chains.mem_iff first head).mp member
    rw [Sched.newTask_home, Function.update_self] at home
    cases home

/-! ### A run -/

/-- Task 1 runs and begins to wait for an event. -/
def waitingRun : List Action :=
  [.tick false, .switch, .call (.eventRead 0 3 2 losWaitForever)]

theorem ongoing_waitingRun : ∃ machine, execute Machine.step (fun _ _ => true) sampleMachine
    waitingRun = some machine ∧ Ongoing machine ∧ machine.sched.losTaskLock = 0 ∧
      1 ∈ machine.sched.chains.nodes (.wait (.eventList 0)) ∧
      (machine.step .schedule).map (fun next => next.sched.failed) = some false ∧
      (machine.createTask { usTaskPrio := 9 }).toOption.map Prod.snd = some 4 := by
  have runs : (execute Machine.step (fun _ _ => true) sampleMachine waitingRun).map (fun machine =>
      decide (machine.sched.failed = false ∧ machine.sched.losTaskLock = 0 ∧
        1 ∈ machine.sched.chains.nodes (.wait (.eventList 0)) ∧
        (machine.step .schedule).map (fun next => next.sched.failed) = some false ∧
        (machine.createTask { usTaskPrio := 9 }).toOption.map Prod.snd = some 4)) = some true := by
    decide
  obtain ⟨machine, result, holds⟩ := Option.map_eq_some_iff.mp runs
  obtain ⟨going, rest⟩ := of_decide_eq_true holds
  exact ⟨machine, result,
    ⟨.of_execute (fun _ _ _ => trivial) _ (.start initial_sampleMachine) result, going⟩, rest⟩

theorem readyQueues_of_reachable_sample : ∃ machine, execute Machine.step (fun _ _ => true)
    sampleMachine waitingRun = some machine ∧ ReadyQueues machine.sched := by
  obtain ⟨machine, result, ongoing, -⟩ := ongoing_waitingRun
  exact ⟨machine, result, readyQueues_of_reachable ongoing⟩

theorem mostUrgent_of_switch_sample : ∃ machine next, execute Machine.step (fun _ _ => true)
    sampleMachine waitingRun = some machine ∧ machine.step .schedule = some next ∧
      MostUrgent next.sched := by
  obtain ⟨machine, result, ongoing, unlocked, -, switched, -⟩ := ongoing_waitingRun
  obtain ⟨next, taken, going⟩ := Option.map_eq_some_iff.mp switched
  exact ⟨machine, next, result, taken,
    (mostUrgent_of_switch ongoing (.inl rfl) unlocked taken going).1⟩

theorem waiters_inside_sample : ∃ machine, execute Machine.step (fun _ _ => true) sampleMachine
    waitingRun = some machine ∧ (machine.pc 1).waitsIn = some (.eventList 0) := by
  obtain ⟨machine, result, ongoing, -, waits, -⟩ := ongoing_waitingRun
  exact ⟨machine, result, (waiters_inside ongoing waits).1⟩

theorem createTask_fresh_sample : ∃ machine, execute Machine.step (fun _ _ => true) sampleMachine
    waitingRun = some machine ∧ (machine.sched.status 4).unused = true := by
  obtain ⟨machine, result, ongoing, -, -, -, made⟩ := ongoing_waitingRun
  cases created : machine.createTask { usTaskPrio := 9 } with
  | error code =>
    rw [created] at made
    cases made
  | ok pair =>
    rw [created] at made
    obtain ⟨next, taskID⟩ := pair
    obtain rfl : taskID = 4 := Option.some.inj made
    exact ⟨machine, result, (createTask_fresh ongoing created).1⟩

end TowerSafe.Kernel
