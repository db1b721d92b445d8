/-
This file proves that every step of the machine keeps it in order: the calls one by one, the
parts of calls after `LOS_Schedule`, the task switch and the tick. A step that stops the system
is left out.
-/

import TowerSafe.Kernel.WellFormed

namespace TowerSafe.Kernel

open Library
open Function (update update_self update_of_ne)

variable {joins : Prop} {machine next : Machine} {interrupt : Bool}

namespace Machine

/-- A call that is made by the running task is made by one that can run. -/
def Calls (machine : Machine) (interrupt : Bool) : Prop :=
  interrupt = false → Runnable (machine.sched.status machine.runTask) ∧
    machine.runTask ≠ machine.sched.config.idleTaskID

theorem Enters.rejected (wellFormed : WellFormed joins machine) (ret : Ret) :
    machine.Enters joins interrupt (machine, .returns ret) :=
  .unchanged wellFormed rfl rfl rfl rfl (by trivial)

theorem Enters.wakes {head : WaitHead} {task : Nat} {ret : Ret}
    (wellFormed : WellFormed joins machine) (found : machine.sched.firstWaiter head = some task)
    (sched : next.sched = machine.sched.osSchedTaskWake task)
    (saved : (∀ mux, (machine.allMux mux).priority ≤ osTaskPriorityLowest) →
      ∀ mux, (next.allMux mux).priority ≤ osTaskPriorityLowest)
    (pc : next.pc = machine.pc) (creating : next.interruptCreating = machine.interruptCreating) :
    machine.Enters joins interrupt (next, .schedules (.finish ret)) := by
  have pend := wellFormed.sound.pend_of_home (Sched.home_of_firstWaiter found)
  refine .of_sched (sched ▸ wellFormed.sound.settles_wake pend) saved pc creating ?_
    (fun runnable => ?_) (by trivial)
  · rw [Machine.runTask, sched, Sched.osSchedTaskWake_touches.globals]
  · rw [sched, Sched.osSchedTaskWake_runnable pend runnable]
    exact runnable

/-! ### Semaphores -/

theorem osSemValidCheck_eq_none {sem : Nat} (valid : machine.osSemValidCheck interrupt sem = none) :
    (machine.allSem sem).used = true ∧ interrupt = false ∧ machine.sched.losTaskLock = 0 := by
  simp only [osSemValidCheck] at valid
  split at valid
  · exact absurd valid (by simp)
  split at valid
  · exact absurd valid (by simp)
  · split at valid
    · exact absurd valid (by simp)
    · simp_all

theorem enters_losSemPend (wellFormed : WellFormed joins machine)
    (calls : machine.Calls interrupt) (sem timeout : Nat) :
    machine.Enters joins interrupt (machine.losSemPend interrupt sem timeout) := by
  rw [losSemPend]
  split
  · exact .rejected wellFormed _
  split
  · exact .rejected wellFormed _
  rename_i valid
  obtain ⟨-, task, unlocked⟩ := osSemValidCheck_eq_none valid
  obtain ⟨runnable, real⟩ := calls task
  split
  · exact .unchanged wellFormed rfl rfl rfl rfl (by trivial)
  split
  · exact .rejected wellFormed _
  · exact .waits task (.of_taskWait (.refl wellFormed.sound) rfl rfl runnable real
      unlocked _ rfl rfl rfl rfl) rfl (by trivial)

theorem enters_losSemPost (wellFormed : WellFormed joins machine) (sem : Nat) :
    machine.Enters joins interrupt (machine.losSemPost sem) := by
  rw [losSemPost]
  split
  · exact .rejected wellFormed _
  split
  · exact .rejected wellFormed _
  split
  · exact .rejected wellFormed _
  split
  · rename_i resumedTask found
    exact .wakes wellFormed found rfl id rfl rfl
  · exact .unchanged wellFormed rfl rfl rfl rfl (by trivial)

/-! ### Mutexes -/

theorem osMuxValidCheck_eq_none {mux : Nat} (valid : machine.osMuxValidCheck interrupt mux = none) :
    (machine.allMux mux).used = true ∧ interrupt = false ∧ machine.sched.losTaskLock = 0 := by
  simp only [osMuxValidCheck] at valid
  split at valid
  · exact absurd valid (by simp)
  split at valid
  · exact absurd valid (by simp)
  · split at valid
    · exact absurd valid (by simp)
    · simp_all

theorem saved_of_update {mux : Nat} {muxCB : LosMuxCB}
    (change : next.allMux = update machine.allMux mux muxCB)
    (low : muxCB.priority ≤ osTaskPriorityLowest)
    (saved : ∀ mux, (machine.allMux mux).priority ≤ osTaskPriorityLowest) (one : Nat) :
    (next.allMux one).priority ≤ osTaskPriorityLowest := by
  rw [change]
  by_cases same : one = mux
  · rw [same, update_self]
    exact low
  · rw [update_of_ne same]
    exact saved one

theorem settles_boostOwner (sound : machine.sched.Sound)
    (runnable : Runnable (machine.sched.status machine.runTask)) (owner : Nat) :
    machine.sched.Settles (machine.boostOwner owner) ∧
      (machine.boostOwner owner).toGlobals = machine.sched.toGlobals ∧
      (∀ task, ((machine.boostOwner owner).view task).timeout = (machine.sched.view task).timeout) ∧
      ∀ task, Runnable (machine.sched.status task) →
        (machine.boostOwner owner).status task = machine.sched.status task := by
  rw [boostOwner]
  split
  · have low := (sound.placed machine.runTask).priority (sound.real_of_runnable runnable)
    refine ⟨sound.settles_modifyTaskSchedParam low,
      (Sched.osSchedModifyTaskSchedParam_touches _).globals, fun task => ?_,
      fun task free => Sched.osSchedModifyTaskSchedParam_runnable _ free⟩
    rw [sound.modifyTaskSchedParam_view]
    by_cases same : task = owner
    · rw [same, update_self]
    · rw [update_of_ne same]
  · exact ⟨.refl sound, rfl, fun _ => rfl, fun _ _ => rfl⟩

theorem enters_losMuxPend (wellFormed : WellFormed joins machine)
    (calls : machine.Calls interrupt) (mux timeout : Nat) :
    machine.Enters joins interrupt (machine.losMuxPend interrupt mux timeout) := by
  rw [losMuxPend]
  split
  · exact .rejected wellFormed _
  split
  · exact .rejected wellFormed _
  rename_i valid
  obtain ⟨-, task, unlocked⟩ := osMuxValidCheck_eq_none valid
  obtain ⟨runnable, real⟩ := calls task
  have low := (wellFormed.sound.placed machine.runTask).priority
    (wellFormed.sound.real_of_runnable runnable)
  split
  · refine .of_sched (.refl wellFormed.sound) (saved_of_update rfl low) rfl rfl rfl id (by trivial)
  split
  · refine .of_sched (.refl wellFormed.sound) (saved_of_update rfl (wellFormed.saved mux)) rfl
      rfl rfl id (by trivial)
  split
  · exact .rejected wellFormed _
  cases (machine.allMux mux).owner with
  | some owner =>
    obtain ⟨settles, globals, timeouts, kept⟩ := settles_boostOwner wellFormed.sound runnable owner
    exact .waits task (.of_taskWait settles globals (timeouts _)
      (by rw [kept _ runnable]; exact runnable) real unlocked _ rfl rfl rfl rfl) rfl
      (by trivial)
  | none =>
    have failing : machine.sched.Settles (machine.sched.losAssert false) :=
      ⟨⟨wellFormed.sound.placed, wellFormed.sound.marked, wellFormed.sound.idle⟩, rfl, rfl,
        id, .inl rfl, fun _ => .refl, fun before => ⟨before.running, before.created⟩⟩
    exact .waits task (.of_taskWait failing rfl rfl runnable real unlocked _ rfl rfl
      rfl rfl) rfl (by trivial)

theorem settles_restoreOwner (sound : machine.sched.Sound) (owner : Nat) {priority : Nat}
    (low : priority ≤ osTaskPriorityLowest) :
    machine.sched.Settles (machine.restoreOwner owner priority) ∧
      (machine.restoreOwner owner priority).toGlobals = machine.sched.toGlobals ∧
      ∀ task, Runnable (machine.sched.status task) →
        (machine.restoreOwner owner priority).status task = machine.sched.status task := by
  rw [restoreOwner]
  split
  · exact ⟨sound.settles_modifyTaskSchedParam low,
      (Sched.osSchedModifyTaskSchedParam_touches _).globals,
      fun task free => Sched.osSchedModifyTaskSchedParam_runnable _ free⟩
  · exact ⟨.refl sound, rfl, fun _ _ => rfl⟩

theorem enters_losMuxPost (wellFormed : WellFormed joins machine) (mux : Nat) :
    machine.Enters joins interrupt (machine.losMuxPost interrupt mux) := by
  rw [losMuxPost]
  split
  · exact .rejected wellFormed _
  split
  · exact .rejected wellFormed _
  split
  · exact .rejected wellFormed _
  split
  · exact .rejected wellFormed _
  split
  · refine .of_sched (.refl wellFormed.sound) (saved_of_update rfl (wellFormed.saved mux)) rfl
      rfl rfl id (by trivial)
  obtain ⟨settles, globals, kept⟩ := settles_restoreOwner wellFormed.sound
    machine.runTask (wellFormed.saved mux)
  have runTask := congrArg Globals.runTask globals
  simp only
  split
  · rename_i resumedTask found
    have home := Sched.home_of_firstWaiter found
    have pend := settles.sound.pend_of_home home
    have woken := settles.sound.settles_wake pend
    refine .of_sched (settles.trans woken) (saved_of_update rfl ?_) rfl rfl ?_
      (fun runnable => ?_) (by trivial)
    · obtain ⟨-, -, -, -, -, real⟩ := settles.sound.pending pend
      exact (settles.sound.placed resumedTask).priority real
    · exact (congrArg Globals.runTask Sched.osSchedTaskWake_touches.globals).trans runTask
    · have before := kept _ runnable
      show Runnable (((machine.restoreOwner machine.runTask
        (machine.allMux mux).priority).osSchedTaskWake resumedTask).status machine.runTask)
      rw [Sched.osSchedTaskWake_runnable pend (before ▸ runnable), before]
      exact runnable
  · refine .of_sched settles (saved_of_update rfl (wellFormed.saved mux)) rfl rfl runTask
      (fun runnable => ?_) (by trivial)
    have before := kept _ runnable
    exact before ▸ runnable

/-! ### Events -/

theorem settles_note {sched : Sched} (sound : sched.Sound) {task : Nat}
    (runnable : Runnable (sched.status task)) (eventMask mode : BitVec 32) :
    sched.Settles (sched.modify task fun taskCB =>
      { taskCB with eventMask := eventMask, eventMode := mode }) := by
  have view : (sched.modify task fun taskCB =>
      { taskCB with eventMask := eventMask, eventMode := mode }).view task =
      { sched.view task with eventMask := eventMask, eventMode := mode } := by
    rw [Sched.view, Sched.modify_tcb, update_self]
    rfl
  refine .of_touches (Sched.modify_touches fun taskCB =>
    { taskCB with eventMask := eventMask, eventMode := mode }) (sound.modify _
      ((sound.placed task).soften rfl rfl rfl rfl rfl id id id id)) ?_
      ((Sched.modify_touches _).runs ?_ ?_)
  · rw [view]
    exact ⟨.inl rfl, fun _ set => .inl set, fun created => .inl created,
      .inl (sound.wait_of_runnable runnable)⟩
  · rw [Sched.status, Sched.modify_tcb, update_self]
    rfl
  · rw [view]
    exact id

section

variable (wellFormed : WellFormed joins machine)
include wellFormed

theorem enters_losEventRead
    (calls : machine.Calls interrupt) (event : Nat) (eventMask mode : BitVec 32) (timeOut : Nat) :
    machine.Enters joins interrupt
      (machine.losEventRead interrupt event eventMask mode timeOut) := by
  rw [losEventRead]
  split
  · exact .rejected wellFormed _
  split
  · exact .rejected wellFormed _
  rename_i task
  split
  · exact .rejected wellFormed _
  simp only
  split
  · split
    · exact .unchanged wellFormed rfl rfl rfl rfl (by trivial)
    split
    · exact .unchanged wellFormed rfl rfl rfl rfl (by trivial)
    rename_i unlocked
    rw [Bool.not_eq_true] at task
    obtain ⟨runnable, real⟩ := calls task
    have noted := settles_note wellFormed.sound runnable eventMask mode
    have same : (machine.sched.modify machine.runTask fun taskCB =>
        { taskCB with eventMask := eventMask, eventMode := mode }).tcb machine.runTask =
        { machine.sched.tcb machine.runTask with
          eventMask := eventMask, eventMode := mode } := update_self _ _ _
    refine .waits task (.of_taskWait noted rfl ?_ ?_ real (not_not.mp unlocked) _ rfl rfl
      rfl rfl) rfl (by trivial)
    · rw [Sched.view, same]
      rfl
    · rw [Sched.status, same]
      exact runnable
  · exact .unchanged wellFormed rfl rfl rfl rfl (by trivial)

theorem enters_losEventWrite (event : Nat)
    (events : BitVec 32) : machine.Enters joins interrupt (machine.losEventWrite event events) := by
  have waiting : ∀ reader ∈ machine.sched.chains.nodes (.wait (.eventList event)),
      (machine.sched.status reader).pend = true := fun reader member =>
    wellFormed.sound.pend_of_home ((machine.sched.chains.mem_iff _ _).mp member)
  rw [losEventWrite]
  split
  · exact .rejected wellFormed _
  obtain ⟨settles, globals, others⟩ := wellFormed.sound.settles_wakeReaders events
    ((machine.allEvent event).uwEventID ||| events) _ (machine.sched.chains.nodup _) waiting
  refine .of_sched settles id rfl rfl (congrArg Globals.runTask globals) (fun runnable => ?_) ?_
  · show Runnable ((wakeReaders _ _ _ machine.sched).1.status machine.runTask)
    rw [others machine.runTask fun member => ?_]
    · exact runnable
    · exact absurd (runnable.pend.symm.trans (waiting _ member)) (by simp)
  · split <;> trivial

theorem enters_losEventClear (event : Nat)
    (eventMask : BitVec 32) :
    machine.Enters joins interrupt (machine.losEventClear event eventMask) :=
  .unchanged wellFormed rfl rfl rfl rfl (by trivial)

end

/-! ### Message queues -/

theorem osQueueBufferOperate_sched (queue : Nat) (operate : QueueOperate) :
    (machine.osQueueBufferOperate queue operate).sched = machine.sched := by
  cases operate <;> rfl

theorem osQueueBufferOperate_allMux (queue : Nat) (operate : QueueOperate) :
    (machine.osQueueBufferOperate queue operate).allMux = machine.allMux := by
  cases operate <;> rfl

theorem osQueueBufferOperate_pc (queue : Nat) (operate : QueueOperate) :
    (machine.osQueueBufferOperate queue operate).pc = machine.pc := by
  cases operate <;> rfl

theorem osQueueBufferOperate_interruptCreating (queue : Nat) (operate : QueueOperate) :
    (machine.osQueueBufferOperate queue operate).interruptCreating = machine.interruptCreating := by
  cases operate <;> rfl

theorem enters_wakeOtherDirection (wellFormed : WellFormed joins machine) {copied : Machine}
    (sched : copied.sched = machine.sched) (saved : copied.allMux = machine.allMux)
    (pc : copied.pc = machine.pc) (creating : copied.interruptCreating = machine.interruptCreating)
    (queue : Nat) (readWrite : ReadWrite) :
    machine.Enters joins interrupt (copied.wakeOtherDirection queue readWrite) := by
  rw [wakeOtherDirection]
  split
  · rename_i resumedTask found
    rw [sched] at found
    refine .wakes wellFormed found ?_ ?_ pc creating
    · show copied.sched.osSchedTaskWake resumedTask = _
      rw [sched]
    · show _ → ∀ mux, (copied.allMux mux).priority ≤ osTaskPriorityLowest
      rw [saved]
      exact id
  · exact .unchanged wellFormed sched saved pc creating (by trivial)

theorem osQueueParameterCheck_eq_none {queue timeOut : Nat} {operate : QueueOperate}
    (valid : machine.osQueueParameterCheck interrupt queue operate timeOut = none) :
    timeOut ≠ 0 → interrupt = false := by
  intro waits
  simp only [osQueueParameterCheck] at valid
  split at valid
  · exact absurd valid (by simp)
  split at valid
  · split at valid <;> exact absurd valid (by simp)
  split at valid
  · split at valid <;> exact absurd valid (by simp)
  · rename_i calls
    simpa [waits] using calls

theorem enters_losQueueCopy (wellFormed : WellFormed joins machine)
    (calls : machine.Calls interrupt) (queue : Nat) (operate : QueueOperate) (timeOut : Nat) :
    machine.Enters joins interrupt (machine.losQueueCopy interrupt queue operate timeOut) := by
  rw [losQueueCopy]
  split
  · exact .rejected wellFormed _
  rename_i valid
  rw [osQueueOperate]
  split
  · exact .rejected wellFormed _
  split
  · split
    · exact .rejected wellFormed _
    rename_i waits
    have task := osQueueParameterCheck_eq_none valid waits
    obtain ⟨runnable, real⟩ := calls task
    split
    · exact .rejected wellFormed _
    · rename_i unlocked
      exact .waits task (.of_taskWait (.refl wellFormed.sound) rfl rfl runnable real
        (not_not.mp unlocked) _ rfl rfl rfl rfl) rfl (by trivial)
  · refine enters_wakeOtherDirection wellFormed ?_ ?_ ?_ ?_ _ _
    · exact osQueueBufferOperate_sched _ _
    · exact osQueueBufferOperate_allMux _ _
    · exact osQueueBufferOperate_pc _ _
    · exact osQueueBufferOperate_interruptCreating _ _

theorem enters_losQueueDelete (wellFormed : WellFormed joins machine) (queue : Nat)
    (memFree : Bool) : machine.Enters joins interrupt (machine.losQueueDelete queue memFree) := by
  rw [losQueueDelete]
  split
  · exact .rejected wellFormed _
  split
  · exact .rejected wellFormed _
  split
  · exact .rejected wellFormed _
  split
  · exact .rejected wellFormed _
  split
  · exact .rejected wellFormed _
  · split
    · exact .rejected wellFormed _
    · exact .unchanged wellFormed rfl rfl rfl rfl (by trivial)

/-! ### The life of a task -/

theorem osCheckTaskIDValid_eq_none {taskID : Nat}
    (valid : machine.osCheckTaskIDValid taskID = none) :
    taskID ≠ machine.sched.config.idleTaskID ∧ taskID < machine.sched.config.taskMaxNum := by
  simp only [osCheckTaskIDValid] at valid
  split at valid
  · exact absurd valid (by simp)
  rename_i other
  split at valid
  · exact absurd valid (by simp)
  split at valid
  · exact absurd valid (by simp)
  · rename_i real
    exact ⟨other, Nat.not_le.mp real⟩

theorem createTask_eq_ok {param : TskInitParam} {taskID : Nat}
    (created : machine.createTask param = .ok (next, taskID)) :
    param.usTaskPrio ≤ osTaskPriorityLowest ∧
      machine.sched.home taskID = some .losFreeTask ∧
      next = ((machine.withSched (machine.sched.newTask taskID param)).setPc taskID .user).record
        (.priorityGiven taskID param.usTaskPrio) := by
  rw [createTask] at created
  split at created
  · exact absurd created (by simp)
  rename_i checked
  have low : param.usTaskPrio ≤ osTaskPriorityLowest := by
    rw [Sched.osTaskInitParamCheck] at checked
    split at checked
    · exact absurd checked (by simp)
    · rename_i low
      exact Nat.le_of_lt (Nat.not_le.mp low)
  split at created
  · exact absurd created (by simp)
  rename_i free found
  split at created
  · exact absurd created (by simp)
  · simp only [Except.ok.injEq, Prod.mk.injEq] at created
    obtain ⟨made, rfl⟩ := created
    exact ⟨low, machine.sched.chains.home_of_first found, made.symm⟩

section

variable (wellFormed : WellFormed joins machine)
include wellFormed

theorem settles_createTask {param : TskInitParam}
    {taskID : Nat} (created : machine.createTask param = .ok (next, taskID)) :
    machine.Settles next ∧ machine.Keeps (next, .returns .ok) ∧ taskID ≠ machine.runTask ∧
      taskID < machine.sched.config.taskMaxNum := by
  obtain ⟨low, free, rfl⟩ := createTask_eq_ok created
  obtain ⟨-, -, unused, real⟩ := free ▸ (wellFormed.sound.placed taskID).place
  have other : taskID ≠ machine.runTask := by
    rintro rfl
    exact absurd ((wellFormed.runs.created real).symm.trans unused) (by simp)
  have settles := wellFormed.sound.settles_newTask free low
  have touches := @Sched.newTask_touches machine.sched taskID param
  have runTask := congrArg Globals.runTask touches.globals
  refine ⟨⟨settles, id, fun task => ?_, rfl⟩, ⟨fun _ => runTask, fun runnable _ => ?_⟩, other, real⟩
  · by_cases same : task = taskID
    · subst same
      have view := congrFun (@Sched.newTask_view machine.sched task param) task
      rw [update_self] at view
      refine .inr ⟨update_self _ _ _, ?_, ?_, other⟩
      · exact congrArg TaskView.wait view
      · exact congrArg TaskView.timeout view
    · exact .inl (update_of_ne same _ _)
  · show Runnable ((machine.sched.newTask taskID param).status
      (machine.sched.newTask taskID param).runTask)
    rw [runTask, touches.status other.symm]
    exact runnable

theorem enters_losTaskCreateOnly (param : TskInitParam) :
    machine.Enters joins interrupt (machine.losTaskCreateOnly param) := by
  rw [losTaskCreateOnly]
  split
  · exact .rejected wellFormed _
  · rename_i created taskID made
    obtain ⟨settles, keeps, -⟩ := settles_createTask wellFormed made
    exact .settles settles keeps trivial

theorem enters_losTaskCreate (param : TskInitParam) :
    machine.Enters joins interrupt (machine.losTaskCreate param) := by
  rw [losTaskCreate]
  split
  · exact .rejected wellFormed _
  rename_i created taskID made
  obtain ⟨settles, keeps, other, real⟩ := settles_createTask wellFormed made
  exact .settles settles ⟨fun _ => keeps.runTask nofun, fun runnable _ =>
    keeps.runnable runnable (.inr nofun)⟩ ⟨other, real⟩

theorem enters_losTaskResume (taskID : Nat) :
    machine.Enters joins interrupt (machine.losTaskResume taskID) := by
  rw [losTaskResume]
  split
  · exact .rejected wellFormed _
  split
  · exact .rejected wellFormed _
  split
  · exact .rejected wellFormed _
  rename_i created suspend
  rw [Bool.not_eq_true] at created
  rw [Bool.not_eq_true', Bool.not_eq_false] at suspend
  refine .of_sched (wellFormed.sound.settles_resume suspend created) id rfl rfl
    (congrArg Globals.runTask Sched.osSchedResume_touches.globals) (fun runnable => ?_) ?_
  · show Runnable ((machine.sched.osSchedResume taskID).1.status machine.runTask)
    rw [Sched.osSchedResume_touches.status]
    · exact runnable
    · intro same
      exact absurd (runnable.suspend.symm.trans (same ▸ suspend)) (by simp)
  · split <;> trivial

end

theorem runTaskID_eq (runnable : Runnable (machine.sched.status machine.runTask))
    (sound : machine.sched.Sound) : machine.sched.runTaskID = machine.runTask := by
  rw [Sched.runTaskID, if_neg]
  exact Nat.ne_of_lt (sound.real_of_runnable runnable)

section

variable (wellFormed : WellFormed joins machine)
include wellFormed

theorem enters_losTaskSuspend (taskID : Nat) :
    machine.Enters joins interrupt (machine.losTaskSuspend taskID) := by
  rw [losTaskSuspend]
  split
  · exact .rejected wellFormed _
  rename_i valid
  obtain ⟨other, real⟩ := osCheckTaskIDValid_eq_none valid
  split
  · exact .rejected wellFormed _
  split
  · exact .rejected wellFormed _
  split
  · exact .rejected wellFormed _
  split
  · exact .rejected wellFormed _
  rename_i created _ _ unlocked
  rw [Bool.not_eq_true] at created
  have touches := @Sched.osSchedSuspend_touches machine.sched taskID
  have runTask := congrArg Globals.runTask touches.globals
  refine .settles ⟨wellFormed.sound.settles_suspend created other, id,
    fun _ => .inl rfl, rfl⟩ ⟨fun _ => runTask, fun runnable free => ?_⟩ ?_
  · have differs : machine.runTask ≠ taskID := by
      rintro rfl
      rcases free with lock | returns
      · refine unlocked ⟨wellFormed.runs.running, ?_⟩
        exact (congrArg Globals.losTaskLock touches.globals) ▸ lock
      · rw [if_pos (runTaskID_eq runnable wellFormed.sound).symm] at returns
        exact returns _ rfl
    show Runnable ((machine.sched.osSchedSuspend taskID).status
      (machine.sched.osSchedSuspend taskID).runTask)
    rw [runTask, touches.status differs]
    exact runnable
  · split <;> trivial

theorem enters_losTaskDelete (taskID : Nat) :
    machine.Enters joins interrupt (machine.losTaskDelete taskID) := by
  rw [losTaskDelete]
  split
  · exact .rejected wellFormed _
  rename_i valid
  obtain ⟨other, real⟩ := osCheckTaskIDValid_eq_none valid
  split
  · exact .rejected wellFormed _
  split
  · exact .rejected wellFormed _
  split
  · exact .rejected wellFormed _
  split
  · exact .rejected wellFormed _
  rename_i created _ _
  rw [Bool.not_eq_true] at created
  have deletes := wellFormed.sound.deleteTask created other
  have globals := deletes.globals
  rw [Sched.deletedGlobals] at globals
  have stays : (machine.sched.status taskID).running ≠ true →
      (machine.sched.deleteTask taskID).runTask = machine.runTask := by
    intro running
    rw [globals, if_neg running]
  refine .settles ⟨wellFormed.sound.settles_deleteTask created other, id,
    fun _ => .inl rfl, rfl⟩ ⟨fun returns => ?_, fun runnable free => ?_⟩ ?_
  · refine stays fun running => ?_
    rw [if_pos running] at returns
    exact returns _ rfl
  · have running : (machine.sched.status taskID).running ≠ true := by
      intro running
      rcases free with lock | returns
      · refine lock ?_
        show (machine.sched.deleteTask taskID).losTaskLock = 0
        rw [globals, if_pos running]
        split <;> rfl
      · rw [if_pos running] at returns
        exact returns _ rfl
    have differs : machine.runTask ≠ taskID := by
      rintro rfl
      exact running wellFormed.runs.running
    show Runnable ((machine.sched.deleteTask taskID).status
      (machine.sched.deleteTask taskID).runTask)
    rw [stays running, Sched.status,
      deletes.tcb _ differs (wellFormed.sound.real_of_runnable runnable),
      ← Sched.status, wellFormed.sound.posted_status runnable.pend]
    exact runnable
  · split <;> trivial

theorem enters_losTaskYield : machine.Enters joins interrupt machine.losTaskYield := by
  have touches := @Sched.osSchedYield_touches machine.sched
  have status := @Sched.osSchedYield_status machine.sched
  have view := @Sched.osSchedYield_view machine.sched
  refine .of_sched (.of_touches touches wellFormed.sound.yield (.of_eq (congrFun view _))
    (touches.runs ?_ ?_)) id rfl rfl (congrArg Globals.runTask touches.globals) ?_ (by trivial)
  · rw [status]
  · rw [view]
    exact id
  · show _ → Runnable (machine.sched.osSchedYield.status machine.runTask)
    rw [status]
    exact id

theorem enters_losTaskDelay (calls : machine.Calls interrupt) (tick : Nat) :
    machine.Enters joins interrupt (machine.losTaskDelay interrupt tick) := by
  rw [losTaskDelay]
  split
  · exact .rejected wellFormed _
  rename_i task
  split
  · exact .rejected wellFormed _
  split
  · exact .rejected wellFormed _
  split
  · exact enters_losTaskYield wellFormed
  rename_i unlocked _ _
  rw [Bool.not_eq_true] at task
  obtain ⟨runnable, real⟩ := calls task
  have touches := @Sched.osSchedDelay_touches machine.sched tick
  have view := @Sched.osSchedDelay_view machine.sched tick
  refine .settles ⟨.of_touches touches (wellFormed.sound.delay runnable real tick)
    (.of_eq (congrFun view _)) (touches.runs ?_ ?_), id, fun _ => .inl rfl, rfl⟩
    ⟨fun _ => rfl, fun _ free => ?_⟩ trivial
  · simp [Sched.status, Sched.osSchedDelay]
  · rw [view]
    exact id
  · exact absurd free (not_or.mpr ⟨unlocked, fun returns => returns _ rfl⟩)

theorem enters_losTaskPriSet (taskID taskPrio : Nat) :
    machine.Enters joins interrupt (machine.losTaskPriSet taskID taskPrio) := by
  rw [losTaskPriSet]
  split
  · exact .rejected wellFormed _
  rename_i low
  split
  · exact .rejected wellFormed _
  split
  · exact .rejected wellFormed _
  split
  · exact .rejected wellFormed _
  split
  · exact .rejected wellFormed _
  split
  · exact .rejected wellFormed _
  refine .of_sched (wellFormed.sound.settles_modifyTaskSchedParam
    (Nat.not_lt.mp low)) id rfl rfl (congrArg Globals.runTask
      (Sched.osSchedModifyTaskSchedParam_touches taskPrio).globals)
    (fun runnable => ?_) ?_
  · have kept := @Sched.osSchedModifyTaskSchedParam_runnable machine.sched taskID _
      taskPrio runnable
    exact kept ▸ runnable
  · split <;> trivial

theorem enters_losTaskUnlock : machine.Enters joins interrupt machine.losTaskUnlock := by
  rw [losTaskUnlock]
  split
  · rename_i locked
    refine .of_sched ⟨wellFormed.sound.globals { machine.sched.toGlobals with
      losTaskLock := machine.sched.losTaskLock - 1 } rfl, rfl, rfl,
        fun _ => Nat.ne_of_gt locked, .inl rfl, fun _ => .refl,
        fun before => ⟨before.running, before.created⟩⟩ id rfl rfl rfl id ?_
    split <;> trivial
  · exact .rejected wellFormed _

/-! ### Joining -/

theorem enters_losTaskJoin (calls : machine.Calls interrupt) (may : joins) (taskID : Nat) :
    machine.Enters joins interrupt (machine.losTaskJoin interrupt taskID) := by
  rw [losTaskJoin]
  split
  · exact .rejected wellFormed _
  rename_i valid
  obtain ⟨other, real⟩ := osCheckTaskIDValid_eq_none valid
  split
  · exact .rejected wellFormed _
  rename_i task
  rw [Bool.not_eq_true] at task
  obtain ⟨runnable, mine⟩ := calls task
  split
  · exact .rejected wellFormed _
  rename_i unlocked
  split
  · exact .rejected wellFormed _
  rename_i self
  have fits : (Cont.taskJoin taskID).Fits machine.sched.config joins machine.runTask :=
    ⟨may, runTaskID_eq runnable wellFormed.sound ▸ self, real, other⟩
  split
  · exact .rejected wellFormed _
  split
  · exact .unchanged wellFormed rfl rfl rfl rfl fits
  split
  · exact .waits task (.of_taskWait (.refl wellFormed.sound) rfl rfl runnable mine
      (not_not.mp unlocked) losWaitForever rfl rfl rfl rfl) rfl fits
  · exact .rejected wellFormed _

theorem enters_losTaskDetach (calls : machine.Calls interrupt) (may : joins) (taskID : Nat) :
    machine.Enters joins interrupt (machine.losTaskDetach interrupt taskID) := by
  rw [losTaskDetach]
  split
  · exact .rejected wellFormed _
  split
  · exact .rejected wellFormed _
  rename_i task
  split
  · exact .rejected wellFormed _
  split
  · exact .unchanged wellFormed rfl rfl rfl rfl ⟨may, (calls (Bool.not_eq_true _ ▸ task)).2⟩
  have globals : (machine.sched.osTaskSetDetachUnsafe taskID).1.toGlobals =
      machine.sched.toGlobals := by
    rw [Sched.osTaskSetDetachUnsafe]
    split
    · split <;> rfl
    · rfl
  exact .of_sched wellFormed.sound.settles_detach id rfl rfl
    (congrArg Globals.runTask globals) Sched.osTaskSetDetachUnsafe_runnable
    (by trivial)

/-! ### The rest of a call -/

theorem Enters.timedOut (code : Errno) :
    machine.Enters joins false (machine.withSched (machine.sched.modifyStatus machine.runTask
      fun status => { status with timeout := false }), .returns (.error code)) := by
  refine .of_sched wellFormed.sound.settles_clearTimeout id rfl rfl rfl (fun runnable => ?_)
    (by trivial)
  show Runnable ((machine.sched.modifyStatus machine.runTask
    fun status => { status with timeout := false }).status machine.runTask)
  rw [Sched.modifyStatus_status, update_self]
  exact ⟨runnable.ready, runnable.pend, runnable.delay, runnable.pendTime, runnable.suspend,
    runnable.unused⟩

theorem enters_leave
    (runnable : Runnable (machine.sched.status machine.runTask)) {cont : Cont}
    (fits : cont.Fits machine.sched.config joins machine.runTask)
    (going : (∀ taskID, cont ≠ .taskJoin taskID) ∨ (machine.leave cont).1.sched.failed = false) :
    machine.Enters joins false (machine.leave cont) := by
  cases cont with
  | finish ret => exact .rejected wellFormed _
  | semPend sem =>
    rw [leave, losSemPendResumed]
    split
    · exact .timedOut wellFormed _
    · exact .unchanged wellFormed rfl rfl rfl rfl (by trivial)
  | muxPend mux =>
    rw [leave, losMuxPendResumed]
    split
    · exact .timedOut wellFormed _
    · exact .unchanged wellFormed rfl rfl rfl rfl (by trivial)
  | queueOperate queue operate =>
    rw [leave, osQueueOperateResumed]
    split
    · exact .timedOut wellFormed _
    refine enters_wakeOtherDirection wellFormed ?_ ?_ ?_ ?_ _ _
    · exact osQueueBufferOperate_sched _ _
    · exact osQueueBufferOperate_allMux _ _
    · exact osQueueBufferOperate_pc _ _
    · exact osQueueBufferOperate_interruptCreating _ _
  | eventRead event eventMask mode =>
    rw [leave, losEventReadResumed]
    split
    · exact .timedOut wellFormed _
    · exact .unchanged wellFormed rfl rfl rfl rfl (by trivial)
  | taskJoin taskID =>
    obtain ⟨-, differs, real, idle⟩ := fits
    obtain ⟨settles, -⟩ := wellFormed.sound.settles_join real idle differs
      (going.resolve_left fun never => never taskID rfl)
    have touches : Sched.Touches taskID machine.sched ((machine.sched.modifyStatus taskID
        fun status => { status with joinable := false }).osRecycleTaskResources taskID) :=
      (Sched.modifyStatus_touches _).trans Sched.osRecycleTaskResources_touches
    refine .of_sched settles id rfl rfl (congrArg Globals.runTask touches.globals)
      (fun runnable => ?_) (by trivial)
    exact (touches.status differs.symm) ▸ runnable
  | taskDetach taskID =>
    exact enters_losTaskJoin wellFormed (fun _ => ⟨runnable, fits.2⟩) fits.1 taskID

end

theorem leave_quiet (wellFormed : WellFormed False machine)
    (runnable : Runnable (machine.sched.status machine.runTask)) {cont : Cont}
    (inside : machine.pc machine.runTask = .resume cont) (task : Nat) :
    (machine.sched.view task).Quiet ((machine.leave cont).1.sched.view task) := by
  have fits := wellFormed.fits machine.runTask
  rw [inside] at fits
  have enters := enters_leave wellFormed runnable fits (.inl (by
    rintro taskID rfl
    exact fits.1))
  generalize eq : machine.leave cont = result at enters
  cases enters with
  | settles settles => exact settles.sched.quiet task
  | waits _ _ waiting =>
    cases cont with
    | finish ret => simp [leave] at eq
    | semPend sem =>
      rw [leave, losSemPendResumed] at eq
      split at eq <;> simp at eq
    | muxPend mux =>
      rw [leave, losMuxPendResumed] at eq
      split at eq <;> simp at eq
    | queueOperate queue operate =>
      rw [leave, osQueueOperateResumed, wakeOtherDirection] at eq
      split at eq
      · simp at eq
      split at eq
      · simp only [Prod.mk.injEq, Next.schedules.injEq] at eq
        rw [← eq.2] at waiting
        exact absurd waiting nofun
      · simp at eq
    | eventRead event eventMask mode =>
      rw [leave, losEventReadResumed] at eq
      split at eq <;> simp at eq
    | taskJoin taskID => exact absurd fits.1 id
    | taskDetach taskID => exact absurd fits.1 id

/-! ### The steps -/

theorem enters_enter (wellFormed : WellFormed joins machine)
    (calls : machine.Calls interrupt) (operation : Operation)
    (may : operation.joins = true → joins) (lock : operation ≠ .taskLock) :
    machine.Enters joins interrupt (machine.enter interrupt operation) := by
  cases operation with
  | semPend sem timeout => exact enters_losSemPend wellFormed calls sem timeout
  | semPost sem => exact enters_losSemPost wellFormed sem
  | muxPend mux timeout => exact enters_losMuxPend wellFormed calls mux timeout
  | muxPost mux => exact enters_losMuxPost wellFormed mux
  | eventRead event eventMask mode timeOut =>
    exact enters_losEventRead wellFormed calls event eventMask mode timeOut
  | eventWrite event events => exact enters_losEventWrite wellFormed event events
  | eventClear event eventMask => exact enters_losEventClear wellFormed event eventMask
  | queueCopy queue operate timeOut =>
    exact enters_losQueueCopy wellFormed calls queue operate timeOut
  | queueDelete queue memFree => exact enters_losQueueDelete wellFormed queue memFree
  | taskCreateOnly param => exact enters_losTaskCreateOnly wellFormed param
  | taskCreate param => exact enters_losTaskCreate wellFormed param
  | taskResume taskID => exact enters_losTaskResume wellFormed taskID
  | taskSuspend taskID => exact enters_losTaskSuspend wellFormed taskID
  | taskDelete taskID => exact enters_losTaskDelete wellFormed taskID
  | taskJoin taskID => exact enters_losTaskJoin wellFormed calls (may rfl) taskID
  | taskDetach taskID => exact enters_losTaskDetach wellFormed calls (may rfl) taskID
  | taskYield => exact enters_losTaskYield wellFormed
  | taskDelay tick => exact enters_losTaskDelay wellFormed calls tick
  | taskPriSet taskID taskPrio => exact enters_losTaskPriSet wellFormed taskID taskPrio
  | taskLock => exact absurd rfl lock
  | taskUnlock => exact enters_losTaskUnlock wellFormed

end Machine

variable {result : Machine × Next}

section

variable (wellFormed : WellFormed joins machine)
include wellFormed

theorem WellFormed.enters_handle
    (enters : machine.Enters joins true result) : WellFormed joins (Machine.handle result) := by
  cases enters with
  | settles settles keeps fits =>
    refine wellFormed.handle settles keeps fun task creates => ?_
    subst creates
    exact fits
  | waits calls => exact absurd calls (by simp)

theorem WellFormed.enters_proceed (runnable : Runnable (machine.sched.status machine.runTask))
    (enters : machine.Enters joins false result)
    (onTime : ¬joins → (result.1.sched.view machine.runTask).unused = false →
      (result.1.sched.view machine.runTask).timeout = false) :
    WellFormed joins (Machine.proceed result) := by
  cases enters with
  | settles settles keeps fits => exact wellFormed.proceed runnable settles keeps fits onTime
  | waits _ waits inside fits =>
    refine wellFormed.proceed_waits waits inside fits fun apart => ?_
    rw [← waits.timeout]
    refine onTime apart ?_
    by_contra unused
    rw [Bool.not_eq_false] at unused
    have waiting := Sched.view_wait_eq_some_iff.mp waits.wait
    have place := (waits.sound.placed machine.runTask).place
    rw [waiting] at place
    exact absurd (place.2.2.1.symm.trans unused) (by simp)

theorem WellFormed.onTime (apart : ¬joins) (user : (machine.pc machine.runTask).waitsIn = none)
    (runnable : Runnable (machine.sched.status machine.runTask)) :
    (machine.sched.view machine.runTask).timeout = false := by
  by_contra late
  rw [Bool.not_eq_false] at late
  exact (wellFormed.punctual apart machine.runTask runnable.unused late).2 user

theorem WellFormed.enters_onTime (runnable : Runnable (machine.sched.status machine.runTask))
    (enters : machine.Enters joins false result)
    (clear : (machine.sched.view machine.runTask).timeout = false)
    (created : (result.1.sched.view machine.runTask).unused = false) :
    (result.1.sched.view machine.runTask).timeout = false := by
  cases enters with
  | settles settles keeps fits =>
    by_contra late
    rw [Bool.not_eq_false] at late
    rcases (settles.sched.quiet machine.runTask).timeout created late with before | waited
    · exact absurd (clear.symm.trans before) (by simp)
    · exact waited.1 (wellFormed.sound.wait_of_runnable runnable)
  | waits _ waits => exact waits.timeout.trans clear

theorem WellFormed.lock
    (runnable : Runnable (machine.sched.status machine.runTask)) (losTaskLock : Nat) :
    WellFormed joins (machine.withSched { machine.sched with losTaskLock := losTaskLock }) where
  sound := wellFormed.sound.globals { machine.sched.toGlobals with losTaskLock := losTaskLock } rfl
  runs := ⟨wellFormed.runs.running, wellFormed.runs.created⟩
  locked _ := runnable
  goesOn _ _ := runnable
  waits := wellFormed.waits
  punctual := wellFormed.punctual
  saved := wellFormed.saved
  fits := wellFormed.fits
  interruptCreating := wellFormed.interruptCreating

theorem WellFormed.call (calls : machine.Calls false) (user : machine.pc machine.runTask = .user)
    (operation : Operation) (may : operation.joins = true → joins) :
    WellFormed joins (Machine.proceed (machine.enter false operation)) := by
  obtain ⟨runnable, -⟩ := calls rfl
  by_cases lock : operation = .taskLock
  · subst lock
    have locked := wellFormed.lock runnable ((machine.sched.losTaskLock + 1) % 2 ^ 16)
    have same : Machine.proceed (machine.enter false .taskLock) =
        machine.withSched { machine.sched with
          losTaskLock := (machine.sched.losTaskLock + 1) % 2 ^ 16 } := by
      show Machine.setPc _ machine.runTask .user = _
      rw [← user]
      exact congrArg (fun pc => { machine.withSched { machine.sched with
        losTaskLock := (machine.sched.losTaskLock + 1) % 2 ^ 16 } with pc := pc })
          (Function.update_eq_self _ _)
    rw [same]
    exact locked
  · have enters := Machine.enters_enter wellFormed calls operation may lock
    refine wellFormed.enters_proceed runnable enters fun apart =>
      wellFormed.enters_onTime runnable enters (wellFormed.onTime apart ?_ runnable)
    rw [user]
    rfl

theorem WellFormed.resume
    (runnable : Runnable (machine.sched.status machine.runTask)) {cont : Cont}
    (inside : machine.pc machine.runTask = .resume cont)
    (going : (machine.leave cont).1.sched.failed = false) :
    WellFormed joins (Machine.proceed (machine.leave cont)) := by
  have fits := wellFormed.fits machine.runTask
  rw [inside] at fits
  have enters := Machine.enters_leave wellFormed runnable fits (.inr going)
  refine wellFormed.enters_proceed runnable enters fun apart created => ?_
  by_cases clear : (machine.sched.view machine.runTask).timeout = false
  · exact wellFormed.enters_onTime runnable enters clear created
  rw [Bool.not_eq_false] at clear
  have late : (machine.sched.status machine.runTask).timeout = true := clear
  have cleared : ((machine.sched.modifyStatus machine.runTask fun status =>
      { status with timeout := false }).view machine.runTask).timeout = false := by
    rw [Sched.view, Sched.modifyStatus_tcb, update_self]
    rfl
  have waits := (wellFormed.punctual apart machine.runTask runnable.unused clear).2
  rw [inside] at waits
  cases cont with
  | finish ret => exact absurd rfl waits
  | semPend sem =>
    rw [Machine.leave, Machine.losSemPendResumed, if_pos late]
    exact cleared
  | muxPend mux =>
    rw [Machine.leave, Machine.losMuxPendResumed, if_pos late]
    exact cleared
  | queueOperate queue operate =>
    rw [Machine.leave, Machine.osQueueOperateResumed, if_pos late]
    exact cleared
  | eventRead event eventMask mode =>
    rw [Machine.leave, Machine.losEventReadResumed, if_pos late]
    exact cleared
  | taskJoin taskID => exact absurd fits.1 apart
  | taskDetach taskID => exact absurd fits.1 apart

theorem WellFormed.switch (pc : Nat → Pc)
    (waits : ∀ task, (pc task).waitsIn = (machine.pc task).waitsIn)
    (fits : ∀ task, (pc task).Fits machine.sched.config joins task)
    (last : machine.interruptCreating = [])
    (going : ({ machine with pc := pc } : Machine).losSchedule.sched.failed = false)
    (unlocked : machine.sched.losTaskLock = 0) :
    WellFormed joins ({ machine with pc := pc } : Machine).losSchedule := by
  have eq : ({ machine with pc := pc } : Machine).losSchedule =
      ({ machine with pc := pc } : Machine).withSched
        { machine.sched.osSchedTaskSwitch with needSched := false } := if_pos unlocked
  rw [eq] at going ⊢
  have stays : machine.sched.osSchedTaskSwitch.failed = false := going
  have sound := wellFormed.sound.switch stays
  have globals := @Sched.osSchedTaskSwitch_toGlobals machine.sched
  have config : machine.sched.osSchedTaskSwitch.config = machine.sched.config := by
    rw [globals]
  have runnable := wellFormed.sound.switch_runnable stays
  have view := @Sched.osSchedTaskSwitch_view machine.sched
  refine ⟨sound.globals { machine.sched.osSchedTaskSwitch.toGlobals with needSched := false } rfl,
    ⟨Sched.osSchedTaskSwitch_running wellFormed.runs.running, fun _ => runnable.unused⟩,
    fun _ => runnable, fun _ _ => runnable, fun task head => ?_, fun apart task => ?_,
    wellFormed.saved, ?_, ?_⟩
  · show (machine.sched.osSchedTaskSwitch.view task).wait = some head →
      (pc task).waitsIn = some head
    rw [view, waits]
    exact wellFormed.waits task head
  · show (machine.sched.osSchedTaskSwitch.view task).unused = false →
      (machine.sched.osSchedTaskSwitch.view task).timeout = true →
        (machine.sched.osSchedTaskSwitch.view task).wait = none ∧ (pc task).waitsIn ≠ none
    rw [view, waits]
    exact wellFormed.punctual apart task
  · show ∀ task, (pc task).Fits machine.sched.osSchedTaskSwitch.config joins task
    rw [config]
    exact fits
  · rw [last]
    exact nofun

theorem WellFormed.schedule {cont : Cont}
    (goes : machine.goesOn = true) (inside : machine.pc machine.runTask = .schedule cont)
    (going : (machine.setPc machine.runTask (.resume cont)).losSchedule.sched.failed = false) :
    WellFormed joins (machine.setPc machine.runTask (.resume cont)).losSchedule := by
  have waits : ∀ task, (update machine.pc machine.runTask (.resume cont) task).waitsIn =
      (machine.pc task).waitsIn := by
    intro task
    by_cases same : task = machine.runTask
    · rw [same, update_self, inside]
      rfl
    · rw [update_of_ne same]
  have fits : ∀ task, (update machine.pc machine.runTask (.resume cont) task).Fits
      machine.sched.config joins task := by
    intro task
    by_cases same : task = machine.runTask
    · rw [same, update_self]
      have before := wellFormed.fits machine.runTask
      rw [inside] at before
      exact before
    · rw [update_of_ne same]
      exact wellFormed.fits task
  by_cases unlocked : machine.sched.losTaskLock = 0
  · exact wellFormed.switch _ waits fits (Machine.goesOn_iff.mp goes).2.2 going unlocked
  have eq : (machine.setPc machine.runTask (.resume cont)).losSchedule =
      machine.setPc machine.runTask (.resume cont) := if_neg unlocked
  rw [eq]
  have runnable := wellFormed.locked unlocked
  refine ⟨wellFormed.sound, wellFormed.runs, fun _ => runnable, fun _ _ => runnable,
    fun task head => ?_, fun apart task => ?_, wellFormed.saved, fits,
    wellFormed.interruptCreating⟩
  · show _ → (update machine.pc machine.runTask (.resume cont) task).waitsIn = some head
    rw [waits]
    exact wellFormed.waits task head
  · show _ → _ → _ ∧ (update machine.pc machine.runTask (.resume cont) task).waitsIn ≠ none
    rw [waits]
    exact wellFormed.punctual apart task

theorem WellFormed.settles_enqueue {task : Nat}
    (differs : task ≠ machine.runTask) (real : task < machine.sched.config.taskMaxNum)
    (going : (machine.sched.osSchedTaskEnQueue task).failed = false) :
    machine.sched.Settles (machine.sched.osSchedTaskEnQueue task) ∧
      (machine.sched.osSchedTaskEnQueue task).status machine.runTask =
        machine.sched.status machine.runTask := by
  have touches := machine.sched.osSchedTaskEnQueue_touches task
  have view := @Sched.osSchedTaskEnQueue_view machine.sched task
  have free : machine.sched.home task = none := by
    rw [Sched.osSchedTaskEnQueue_failed, Bool.or_eq_false_iff, Bool.and_eq_false_iff,
      decide_eq_false_iff_not, not_not, Option.isSome_eq_false_iff,
      Option.isNone_iff_eq_none] at going
    rcases going.2 with idle | free
    · rw [idle]
      exact wellFormed.sound.home_idle
    · exact free
  refine ⟨.of_touches touches (wellFormed.sound.enQueue free real) (.of_eq (congrFun view _))
    (touches.runs (Sched.running_of_flags Sched.osSchedTaskEnQueue_flags) ?_),
    touches.status differs.symm⟩
  rw [view]
  exact id

theorem WellFormed.tick (scanTimer : Bool) :
    WellFormed joins (machine.withSched (machine.sched.losSchedTickHandler scanTimer)) := by
  have globals := @Sched.ticked_toGlobals machine.sched scanTimer
  have kept : Runnable (machine.sched.status machine.runTask) →
      Runnable ((machine.sched.ticked scanTimer).status machine.runTask) := by
    intro runnable
    rw [Sched.ticked_status scanTimer runnable.pend runnable.delay]
    exact runnable
  have settles : machine.sched.Settles (machine.sched.ticked scanTimer) := by
    have quiet : ∀ task, (machine.sched.view task).Quiet
        ((machine.sched.ticked scanTimer).view task) := by
      intro task
      rcases wellFormed.sound.ticked_view scanTimer task with same | late
      · exact .of_eq same
      · rw [late]
        exact .timedOut
    refine ⟨wellFormed.sound.ticked scanTimer, congrArg Globals.config globals,
      congrArg Globals.needSched globals, fun lock => ?_,
      .inl (congrArg Globals.runTask globals), quiet, fun before => ?_⟩
    · exact (congrArg Globals.losTaskLock globals) ▸ lock
    · have unused : ∀ task, ((machine.sched.ticked scanTimer).status task).unused =
          (machine.sched.status task).unused := by
        intro task
        show ((machine.sched.ticked scanTimer).view task).unused = (machine.sched.view task).unused
        rcases wellFormed.sound.ticked_view scanTimer task with same | late
        · rw [same]
        · rw [late, TaskView.timedOut]
          split <;> rfl
      refine ⟨?_, ?_⟩
      · rw [globals, Sched.running_of_flags (Sched.ticked_flags scanTimer)]
        exact before.running
      · rw [globals, unused]
        exact before.created
  have locked : machine.sched.losTaskLock ≠ 0 →
      Runnable ((machine.sched.ticked scanTimer).status machine.runTask) :=
    fun lock => kept (wellFormed.locked lock)
  refine @WellFormed.settled joins machine (machine.withSched (machine.sched.ticked scanTimer))
    wellFormed ⟨settles, id, fun _ => .inl rfl, rfl⟩ ?_
    (machine.sched.needSched || decide (machine.sched.losTaskLock = 0)) ?_
  · show (machine.sched.ticked scanTimer).losTaskLock ≠ 0 →
      Runnable ((machine.sched.ticked scanTimer).status (machine.sched.ticked scanTimer).runTask)
    rw [globals]
    exact locked
  · intro calm _
    rw [Bool.or_eq_false_iff, decide_eq_false_iff_not] at calm
    show Runnable ((machine.sched.ticked scanTimer).status (machine.sched.ticked scanTimer).runTask)
    rw [globals]
    exact locked calm.2

theorem WellFormed.globals (globals : Globals)
    (config : globals.config = machine.sched.config)
    (runTask : globals.runTask = machine.runTask)
    (lock : globals.losTaskLock = machine.sched.losTaskLock)
    (needSched : globals.needSched = machine.sched.needSched) :
    WellFormed joins (machine.withSched { machine.sched with toGlobals := globals }) where
  sound := wellFormed.sound.globals globals config
  runs := by
    refine ⟨?_, ?_⟩
    · show (machine.sched.status globals.runTask).running = true
      rw [runTask]
      exact wellFormed.runs.running
    · show globals.runTask < globals.config.taskMaxNum →
        (machine.sched.status globals.runTask).unused = false
      rw [runTask, config]
      exact wellFormed.runs.created
  locked := by
    show globals.losTaskLock ≠ 0 → Runnable (machine.sched.status globals.runTask)
    rw [runTask, lock]
    exact wellFormed.locked
  goesOn := by
    show globals.needSched = false → (∀ cont, machine.pc globals.runTask ≠ .schedule cont) →
      Runnable (machine.sched.status globals.runTask)
    rw [runTask, needSched]
    exact wellFormed.goesOn
  waits := wellFormed.waits
  punctual := wellFormed.punctual
  saved := wellFormed.saved
  fits := by
    show ∀ task, (machine.pc task).Fits globals.config joins task
    rw [config]
    exact wellFormed.fits
  interruptCreating := by
    show ∀ task ∈ machine.interruptCreating, task ≠ globals.runTask ∧
      task < globals.config.taskMaxNum
    rw [runTask, config]
    exact wellFormed.interruptCreating

theorem WellFormed.settled_sched {sched : Sched}
    (settles : machine.sched.Settles sched) (globals : sched.toGlobals = machine.sched.toGlobals)
    (kept : Runnable (machine.sched.status machine.runTask) →
      Runnable (sched.status machine.runTask)) : WellFormed joins (machine.withSched sched) := by
  have runTask : sched.runTask = machine.runTask := congrArg Globals.runTask globals
  refine @WellFormed.settled joins machine (machine.withSched sched) wellFormed
    ⟨settles, id, fun _ => .inl rfl, rfl⟩ ?_ sched.needSched ?_
  · show sched.losTaskLock ≠ 0 → Runnable (sched.status sched.runTask)
    rw [runTask, congrArg Globals.losTaskLock globals]
    exact fun lock => kept (wellFormed.locked lock)
  · show sched.needSched = false → (∀ cont, machine.pc sched.runTask ≠ .schedule cont) →
      Runnable (sched.status sched.runTask)
    rw [runTask, congrArg Globals.needSched globals]
    exact fun calm awake => kept (wellFormed.goesOn calm awake)

theorem WellFormed.requestSwitch : WellFormed joins machine.requestSwitch := by
  rw [Machine.requestSwitch]
  split
  · exact { wellFormed with
      sound := wellFormed.sound.globals { machine.sched.toGlobals with needSched := true } rfl
      runs := ⟨wellFormed.runs.running, wellFormed.runs.created⟩
      goesOn := fun calm => Bool.noConfusion calm }
  · exact wellFormed

theorem WellFormed.runnable (goes : machine.goesOn = true)
    (awake : ∀ cont, machine.pc machine.runTask ≠ .schedule cont) :
    Runnable (machine.sched.status machine.runTask) :=
  wellFormed.goesOn (Machine.goesOn_iff.mp goes).2.1 awake

theorem WellFormed.enqueue {taskID : Nat}
    (goes : machine.goesOn = true) (inside : machine.pc machine.runTask = .creating taskID)
    (going : (machine.sched.osSchedTaskEnQueue taskID).failed = false) :
    WellFormed joins ((machine.withSched (machine.sched.osSchedTaskEnQueue taskID)).setPc
      machine.runTask (.schedule (.finish .ok))) := by
  have runnable := wellFormed.runnable goes (by simp [inside])
  have fits := wellFormed.fits machine.runTask
  rw [inside] at fits
  obtain ⟨settles, kept⟩ := wellFormed.settles_enqueue fits.1 fits.2 going
  have runTask : (machine.sched.osSchedTaskEnQueue taskID).runTask = machine.runTask :=
    congrArg Globals.runTask (machine.sched.osSchedTaskEnQueue_toGlobals taskID)
  have eq : (machine.withSched (machine.sched.osSchedTaskEnQueue taskID)).setPc machine.runTask
      (.schedule (.finish .ok)) =
      Machine.proceed (machine.withSched (machine.sched.osSchedTaskEnQueue taskID),
        .schedules (.finish .ok)) := by
    show _ = (machine.withSched (machine.sched.osSchedTaskEnQueue taskID)).setPc
      (machine.sched.osSchedTaskEnQueue taskID).runTask _
    rw [runTask]
    rfl
  rw [eq]
  refine wellFormed.proceed runnable ⟨settles, id, fun _ => .inl rfl, rfl⟩
    ⟨fun _ => runTask, fun _ _ => ?_⟩ trivial fun apart _ => ?_
  · show Runnable ((machine.sched.osSchedTaskEnQueue taskID).status
      (machine.sched.osSchedTaskEnQueue taskID).runTask)
    rw [runTask, kept]
    exact runnable
  · show ((machine.sched.osSchedTaskEnQueue taskID).view machine.runTask).timeout = false
    rw [Sched.osSchedTaskEnQueue_view]
    refine wellFormed.onTime apart ?_ runnable
    rw [inside]
    rfl

theorem WellFormed.interruptEnqueue {taskID : Nat} (member : taskID ∈ machine.interruptCreating)
    (going : (machine.sched.osSchedTaskEnQueue taskID).failed = false) :
    WellFormed joins ({ machine with
      interruptCreating := machine.interruptCreating.erase taskID }.withSched
        (machine.sched.osSchedTaskEnQueue taskID)) := by
  obtain ⟨differs, real⟩ := wellFormed.interruptCreating taskID member
  obtain ⟨settles, kept⟩ := wellFormed.settles_enqueue differs real going
  have enqueued := wellFormed.settled_sched settles
    (machine.sched.osSchedTaskEnQueue_toGlobals taskID) fun runnable => kept ▸ runnable
  exact { enqueued with
    interruptCreating := fun one old =>
      enqueued.interruptCreating one (List.mem_of_mem_erase old) }

theorem WellFormed.step {action : Action}
    (may : ∀ operation, action.operation = some operation → operation.joins = true → joins)
    (result : machine.step action = some next) (going : next.sched.failed = false) :
    WellFormed joins next := by
  obtain ⟨-, steps⟩ := Machine.steps_of_step result
  cases steps with
  | call goes inside real =>
    have runnable := wellFormed.runnable goes (by simp [inside])
    exact wellFormed.call (fun _ => ⟨runnable, real⟩) inside _ (may _ rfl)
  | schedule goes inside => exact wellFormed.schedule goes inside going
  | resume goes inside =>
    have runnable := wellFormed.runnable goes (by simp [inside])
    exact wellFormed.resume runnable inside going
  | enqueue goes inside => exact wellFormed.enqueue goes inside going
  | interrupt possible =>
    refine wellFormed.enters_handle
      (Machine.enters_enter wellFormed (fun task => absurd task (by simp)) _ (may _ rfl) ?_)
    rintro rfl
    exact absurd possible (by simp [Operation.inInterrupt])
  | interruptEnqueue member =>
    refine (wellFormed.interruptEnqueue member ?_).requestSwitch
    rw [Machine.requestSwitch] at going
    split at going <;> exact going
  | switch due last =>
    by_cases unlocked : machine.sched.losTaskLock = 0
    · exact wellFormed.switch machine.pc (fun _ => rfl) wellFormed.fits last going unlocked
    · rw [Machine.losSchedule, if_neg unlocked]
      exact wellFormed
  | tick => exact wellFormed.tick _
  | elapse =>
    exact wellFormed.globals { machine.sched.toGlobals with cycle := _ } rfl rfl rfl rfl
  | setPmMode =>
    exact wellFormed.globals { machine.sched.toGlobals with pmMode := _ } rfl rfl rfl rfl
  | recycle =>
    refine wellFormed.settled_sched wellFormed.sound.settles_recycleFinishedTask
      Sched.osRecycleFinishedTask_toGlobals fun runnable => ?_
    rw [wellFormed.sound.recycleFinishedTask_runnable runnable]
    exact runnable

end

end TowerSafe.Kernel
