/-
This file follows a task control block through its life: from the list of free blocks to a new,
suspended task, and from the exit of a task back to that list, for a task that deleted itself by
way of the list of finished tasks.
-/

import TowerSafe.Kernel.Switching

namespace TowerSafe.Kernel

open Library
open Function (update update_self update_of_ne)

def TaskView.created (view : TaskView) (priority : Nat) : TaskView where
  wait := none
  timeout := false
  exit := false
  unused := false
  priority := priority
  eventMask := 0
  eventMode := view.eventMode

def freeView : TaskView :=
  unusedTaskCB.view (some .losFreeTask)

/-- A task has ended: it waits for nothing, it is marked as exited or as unused, and as long as
its block is in use, whether it had timed out stays. -/
structure TaskView.Gone (old new : TaskView) : Prop where
  wait : new.wait = none
  marked : new.exit = true ∨ new.unused = true
  timeout : new.unused = false → new.timeout = old.timeout ∧ old.unused = false

namespace Sched

variable {sched next : Sched} {task other : Nat} {head : WaitHead}

/-! ### Creation -/

/-- The scheduler after `LOS_TaskCreateOnly` has taken a block and filled it in. -/
def newTask (sched : Sched) (task : Nat) (param : TskInitParam) : Sched :=
  (sched.losListDelete task).osNewTaskInit task param

theorem newTask_touches (param : TskInitParam) : Touches task sched (sched.newTask task param) := by
  rw [newTask]
  exact losListDelete_touches.trans (modify_touches _)

theorem newTask_home (param : TskInitParam) :
    (sched.newTask task param).home = update sched.home task none :=
  rfl

theorem newTask_view (param : TskInitParam) : (sched.newTask task param).view =
    update sched.view task ((sched.view task).created param.usTaskPrio) := by
  rw [(newTask_touches param).view]
  rw [view, newTask_home, update_self, newTask, osNewTaskInit, modify_tcb, update_self]
  rfl

theorem Sound.newTask (sound : sched.Sound) {param : TskInitParam}
    (free : sched.home task = some .losFreeTask)
    (low : param.usTaskPrio ≤ osTaskPriorityLowest) : (sched.newTask task param).Sound := by
  have placed := sound.placed task
  have place := placed.place
  rw [free] at place
  obtain ⟨-, -, unused, real⟩ := place
  refine sound.touch (newTask_touches param) ?_ rfl fun priority => ?_
  · rw [newTask_home, update_self, Sched.newTask, osNewTaskInit, modify_tcb, update_self]
    refine ⟨nofun, fun _ => low, fun idle => ?_, nofun, nofun, rfl, ?_⟩
    · exact absurd ((placed.idle idle).2.2.2.2.symm.trans unused) (by simp)
    · exact iff_of_false (by simp) (Nat.not_le.mpr real)
  · rw [newTask_home, free]
    simp

/-! ### Free blocks -/

theorem osInsertTCBToFreeList_touches : Touches task sched (sched.osInsertTCBToFreeList task) :=
  (modify_touches _).trans (losListAdd_touches _)

theorem osInsertTCBToFreeList_home (free : sched.home task = none) :
    (sched.osInsertTCBToFreeList task).home = update sched.home task (some .losFreeTask) := by
  rw [osInsertTCBToFreeList, losListAdd_home, modify_home, if_pos free]

theorem osInsertTCBToFreeList_tcb : (sched.osInsertTCBToFreeList task).tcb =
    update sched.tcb task unusedTaskCB :=
  rfl

theorem osInsertTCBToFreeList_view (free : sched.home task = none) :
    (sched.osInsertTCBToFreeList task).view = update sched.view task freeView := by
  rw [osInsertTCBToFreeList_touches.view]
  rw [view, osInsertTCBToFreeList_home free, osInsertTCBToFreeList_tcb, update_self, update_self]
  rfl

theorem Sound.toFreeList (sound : sched.Sound) {middle : Sched}
    (touches : Touches task sched middle) (free : middle.home task = none)
    (bitmap : middle.queueBitmap = sched.queueBitmap)
    (queue : ∀ priority, sched.home task ≠ some (.priQueue priority))
    (real : task < sched.config.taskMaxNum) (other : task ≠ sched.config.idleTaskID) :
    (middle.osInsertTCBToFreeList task).Sound := by
  refine sound.touch (touches.trans osInsertTCBToFreeList_touches) ?_ bitmap fun priority => ?_
  · rw [osInsertTCBToFreeList_home free, osInsertTCBToFreeList_tcb, update_self, update_self]
    exact ⟨nofun, fun _ => Nat.zero_le _, fun idle => absurd idle other, fun _ => rfl, rfl, rfl,
      rfl, real⟩
  · rw [osInsertTCBToFreeList_home free]
    simp [queue priority]

theorem Sound.recycleFinishedTask (sound : sched.Sound) : sched.osRecycleFinishedTask.Sound ∧
    ∀ one, sched.osRecycleFinishedTask.view one = sched.view one ∨
      (sched.home one = some .taskRecycleList ∧
        sched.osRecycleFinishedTask.view one = freeView) := by
  cases found : sched.chains.first .taskRecycleList with
  | none =>
    rw [osRecycleFinishedTask, found]
    exact ⟨sound, fun _ => .inl rfl⟩
  | some finished =>
    have here : sched.home finished = some .taskRecycleList := sched.chains.home_of_first found
    have placed := sound.placed finished
    have place := placed.place
    rw [here] at place
    obtain ⟨-, -, unused, real, detached⟩ := place
    have eq : sched.osRecycleFinishedTask =
        (sched.losListDelete finished).osInsertTCBToFreeList finished := by
      rw [osRecycleFinishedTask, found]
      show (sched.losListDelete finished).osRecycleTaskResources finished = _
      rw [osRecycleTaskResources, losListDelete_status, status, detached]
      rfl
    have free : (sched.losListDelete finished).home finished = none := by
      rw [losListDelete_home, update_self]
    rw [eq]
    refine ⟨sound.toFreeList losListDelete_touches free rfl (fun priority => ?_) real ?_, ?_⟩
    · rw [here]
      simp
    · intro idle
      exact absurd ((placed.idle idle).2.2.2.2.symm.trans unused) (by simp)
    · intro one
      rw [osInsertTCBToFreeList_view free]
      by_cases same : one = finished
      · rw [same, update_self]
        exact .inr ⟨here, rfl⟩
      · rw [update_of_ne same, losListDelete_touches.view, update_of_ne same]
        exact .inl rfl

/-! ### Deletion -/

theorem unlockFor_toGlobals : (sched.unlockFor task).toGlobals =
    if (sched.status task).running then { sched.toGlobals with losTaskLock := 0 }
    else sched.toGlobals := by
  rw [unlockFor]
  split <;> rfl

theorem Sound.unlockFor (sound : sched.Sound) : (sched.unlockFor task).Sound := by
  rw [Sched.unlockFor]
  split
  · exact sound.globals { sched.toGlobals with losTaskLock := 0 } rfl
  · exact sound

theorem unlockFor_tcb : (sched.unlockFor task).tcb = sched.tcb := by
  rw [unlockFor]
  split <;> rfl

theorem unlockFor_home : (sched.unlockFor task).home = sched.home := by
  rw [unlockFor]
  split <;> rfl

theorem unlockFor_view : (sched.unlockFor task).view = sched.view := by
  funext one
  rw [view, unlockFor_tcb, unlockFor_home]
  rfl

/-- The scheduler when `LOS_TaskDelete` has unlocked it and woken the task that waits for the end
of the deleted one. -/
def posted (sched : Sched) (task : Nat) : Sched :=
  (sched.unlockFor task).osTaskJoinPostUnsafe task

theorem posted_cases : sched.posted task = sched.unlockFor task ∨
    ∃ joiner, sched.home joiner = some (.wait (.joinList task)) ∧
      sched.posted task = (sched.unlockFor task).osSchedTaskWake joiner := by
  rw [posted, osTaskJoinPostUnsafe]
  split
  · cases found : (sched.unlockFor task).firstWaiter (.joinList task) with
    | none => exact .inl rfl
    | some joiner =>
      refine .inr ⟨joiner, ?_, rfl⟩
      rw [← unlockFor_home]
      exact home_of_firstWaiter found
  · exact .inl rfl

theorem posted_toGlobals : (sched.posted task).toGlobals =
    if (sched.status task).running then { sched.toGlobals with losTaskLock := 0 }
    else sched.toGlobals := by
  rcases @posted_cases sched task with same | ⟨joiner, -, same⟩
  · rw [same, unlockFor_toGlobals]
  · rw [same, osSchedTaskWake_touches.globals, unlockFor_toGlobals]

theorem posted_config : (sched.posted task).config = sched.config := by
  rw [posted_toGlobals]
  split <;> rfl

theorem posted_flags : (sched.posted task).flags = sched.flags := by
  have unlocked : (sched.unlockFor task).flags = sched.flags := by
    funext one
    rw [flags, status, unlockFor_tcb]
    rfl
  rcases @posted_cases sched task with same | ⟨joiner, -, same⟩
  · rw [same, unlocked]
  · rw [same, osSchedTaskWake_flags, unlocked]

theorem posted_view (one : Nat) : (sched.posted task).view one = sched.view one ∨
    (sched.view one).wait = some (.joinList task) ∧
      (sched.posted task).view one = (sched.view one).unwait := by
  rcases @posted_cases sched task with same | ⟨joiner, waits, same⟩
  · rw [same, unlockFor_view]
    exact .inl rfl
  rw [same, osSchedTaskWake_view, unlockFor_view]
  by_cases its : one = joiner
  · rw [its, update_self]
    exact .inr ⟨view_wait_eq_some_iff.mpr waits, rfl⟩
  · rw [update_of_ne its]
    exact .inl rfl

theorem posted_unused (one : Nat) :
    ((sched.posted task).status one).unused = (sched.status one).unused := by
  show ((sched.posted task).view one).unused = (sched.view one).unused
  rcases @posted_view sched task one with same | ⟨-, same⟩ <;> rw [same]
  rfl

theorem posted_timeout (one : Nat) :
    ((sched.posted task).view one).timeout = (sched.view one).timeout := by
  rcases @posted_view sched task one with same | ⟨-, same⟩ <;> rw [same]
  rfl

theorem Sound.posted_status (sound : sched.Sound) {one : Nat}
    (pend : (sched.status one).pend = false) :
    (sched.posted task).status one = sched.status one := by
  have unlocked : (sched.unlockFor task).status = sched.status := by
    funext two
    rw [status, unlockFor_tcb, status]
  rcases @posted_cases sched task with same | ⟨joiner, waits, same⟩
  · rw [same, unlocked]
  have differs : one ≠ joiner := by
    rintro rfl
    exact absurd (pend.symm.trans (sound.pend_of_home waits)) (by simp)
  rw [same, status, osSchedTaskWake_touches.tcb one differs, unlockFor_tcb, status]

theorem Sound.posted (sound : sched.Sound) : (sched.posted task).Sound := by
  rcases @posted_cases sched task with same | ⟨joiner, waits, same⟩
  · rw [same]
    exact sound.unlockFor
  rw [same]
  refine sound.unlockFor.wake ?_
  rw [status, unlockFor_tcb]
  exact sound.pend_of_home waits

theorem exitTask_eq : sched.exitTask task = ((sched.posted task).osSchedTaskExit task).modify task
      fun taskCB => { taskCB with eventMask := 0 } :=
  rfl

theorem exitTask_touches : Touches task (sched.posted task) (sched.exitTask task) := by
  exact osSchedTaskExit_touches.trans (modify_touches _)

theorem Sound.exitTask_status (sound : sched.Sound) : (sched.exitTask task).status task =
    { (sched.posted task).status task with
      ready := false, pend := false, delay := false, pendTime := false, exit := true } := by
  have exited := @Sound.exit_status _ task (@Sound.posted sched task sound)
  rw [exitTask_eq, status, modify_tcb, update_self, ← status, exited]

theorem Sound.exitTask (sound : sched.Sound) (created : (sched.status task).unused = false)
    (other : task ≠ sched.config.idleTaskID) : (sched.exitTask task).Sound := by
  have exited : ((sched.posted task).osSchedTaskExit task).Sound := by
    refine (@Sound.posted sched task sound).exit ?_ ?_
    · rw [posted_unused]
      exact created
    · rw [posted_config]
      exact other
  exact exited.modify _ ((exited.placed task).soften rfl rfl rfl rfl rfl id id id id)

theorem Sound.exitTask_view (sound : sched.Sound) : (sched.exitTask task).view =
    update (sched.posted task).view task
      { ((sched.posted task).view task).unwait with exit := true, eventMask := 0 } := by
  rw [exitTask_touches.view]
  congr 1
  have exited : ((sched.posted task).osSchedTaskExit task).view task =
      { ((sched.posted task).view task).unwait with exit := true } := by
    rw [(@Sound.posted sched task sound).exit_view, update_self]
  rw [exitTask_eq, view, modify_tcb, update_self, modify_home]
  have mask := congrArg (fun view : TaskView => { view with eventMask := 0 }) exited
  exact mask

theorem Sound.exitTask_home (sound : sched.Sound) (created : (sched.status task).unused = false)
    (other : task ≠ sched.config.idleTaskID) : (sched.exitTask task).home task = none := by
  have status := @Sound.exitTask_status sched task sound
  refine (sound.exitTask created other).unlinked ?_ ?_ ?_
  · rw [status]
  · rw [status]
  · rw [status]
    exact (posted_unused task).trans created

theorem osRecycleTaskResources_touches :
    Touches task sched (sched.osRecycleTaskResources task) := by
  rw [osRecycleTaskResources]
  split
  · exact modifyStatus_touches _
  · exact osInsertTCBToFreeList_touches

theorem Sound.recycleExited (sound : sched.Sound) (free : sched.home task = none)
    (real : task < sched.config.taskMaxNum) (other : task ≠ sched.config.idleTaskID)
    {old : TaskView} (gone : old.Gone (sched.view task)) :
    (sched.osRecycleTaskResources task).Sound ∧
      old.Gone ((sched.osRecycleTaskResources task).view task) := by
  rw [osRecycleTaskResources]
  split
  · refine ⟨sound.clearBits rfl rfl rfl rfl id id id id, ?_⟩
    rw [modifyStatus_view rfl rfl rfl]
    exact gone
  refine ⟨sound.toFreeList .refl free rfl (fun priority => ?_) real other, ?_⟩
  · rw [free]
    simp
  · rw [osInsertTCBToFreeList_view free, update_self]
    exact ⟨rfl, .inr rfl, nofun⟩

/-- The marks of the running task: the bit says so, and it is a live task or the block that
stands in for a deleted one. -/
structure Runs (sched : Sched) : Prop where
  running : (sched.status sched.runTask).running = true
  created : sched.runTask < sched.config.taskMaxNum →
    (sched.status sched.runTask).unused = false

def deletedGlobals (sched : Sched) (task : Nat) : Globals :=
  if (sched.status task).running then
    if (sched.status task).joinable then { sched.toGlobals with losTaskLock := 0 }
    else
      { sched.toGlobals with
        losTaskLock := 0, runTask := sched.config.taskMaxNum, deletedTaskID := task }
  else sched.toGlobals

/-- What deleting a task comes to, once the task that waits for its end has been woken: it is
gone, the other tasks are as they were, and if it was running then a block that is marked as
running stands in for it. -/
structure Deletes (task : Nat) (sched next : Sched) : Prop where
  sound : next.Sound
  gone : (sched.view task).Gone (next.view task)
  tcb : ∀ one, one ≠ task → one < sched.config.taskMaxNum →
    next.tcb one = (sched.posted task).tcb one
  home : ∀ one, one ≠ task → next.home one = (sched.posted task).home one
  globals : next.toGlobals = sched.deletedGlobals task
  runs : sched.Runs → next.Runs

theorem Deletes.view {one : Nat} (deletes : Deletes task sched next) (differs : one ≠ task)
    (real : one < sched.config.taskMaxNum) : next.view one = (sched.posted task).view one := by
  rw [Sched.view, Sched.view, deletes.tcb one differs real, deletes.home one differs]

theorem Sound.finishTask (sound : sched.Sound) (free : sched.home task = none)
    (status : (sched.status task).ready = false ∧ (sched.status task).delay = false ∧
      (sched.status task).joinable = false)
    (real : task < sched.config.taskMaxNum) (other : task ≠ sched.config.idleTaskID) :
    (sched.finishTask task).Sound := by
  have placed := sound.placed task
  have place := placed.place
  rw [free] at place
  refine sound.touch ((modifyStatus_touches _).trans (losListTailInsert_touches _)) ?_ rfl
    fun priority => ?_
  · rw [Sched.finishTask, losListTailInsert_home, modifyStatus_home, if_pos free, update_self]
    have filled : (sched.finishTask task).tcb task =
        { sched.tcb task with taskStatus := { sched.status task with unused := true } } :=
      update_self _ _ _
    rw [Sched.finishTask] at filled
    rw [filled]
    exact ⟨placed.ready, placed.priority, fun idle => absurd idle other, fun _ => status.2.1,
      status.1, place.2.1, rfl, real, status.2.2⟩
  · rw [Sched.finishTask, losListTailInsert_home, modifyStatus_home, free]
    simp

theorem Sound.home_beyond (sound : sched.Sound) (beyond : sched.config.taskMaxNum ≤ task) :
    sched.home task = none := by
  have place := (sound.placed task).place
  cases found : sched.home task with
  | none => rfl
  | some list =>
    rw [found] at place
    cases list with
    | priQueue _ => exact absurd place.2.2.2.2.1 (Nat.not_lt.mpr beyond)
    | wait _ => exact absurd place.2.2.2.2 (Nat.not_lt.mpr beyond)
    | losFreeTask => exact absurd place.2.2.2 (Nat.not_lt.mpr beyond)
    | taskRecycleList => exact absurd place.2.2.2.1 (Nat.not_lt.mpr beyond)

theorem Sound.standIn (sound : sched.Sound) (status : TaskStatus) (ready : status.ready = false)
    (pend : status.pend = false) (delay : status.delay = false) (unused : status.unused = true) :
    (sched.modifyStatus sched.config.taskMaxNum fun _ => status).Sound := by
  refine sound.modify _ ⟨fun set => absurd (ready.symm.trans set) (by simp),
    fun real => absurd real (Nat.lt_irrefl _), fun idle => absurd sound.idle (idle ▸ Nat.lt_irrefl _),
    fun _ => delay, ?_⟩
  rw [sound.home_beyond (Nat.le_refl _)]
  exact ⟨fun set => absurd (ready.symm.trans set) (by simp), pend,
    iff_of_true unused (Nat.le_refl _)⟩

theorem Sound.deleteTask (sound : sched.Sound) (created : (sched.status task).unused = false)
    (other : task ≠ sched.config.idleTaskID) :
    Deletes task sched (sched.deleteTask task) := by
  have exited := sound.exitTask created other
  have free := sound.exitTask_home created other
  have status := @Sound.exitTask_status sched task sound
  have touches := @exitTask_touches sched task
  have real := sound.real created
  have tcb := touches.tcb
  have home := touches.home
  have flags : (sched.exitTask task).flags = sched.flags := by
    rw [flags_congr touches (by rw [status]; rfl), posted_flags]
  have gone : (sched.view task).Gone ((sched.exitTask task).view task) := by
    rw [sound.exitTask_view, update_self]
    exact ⟨rfl, .inl rfl, fun _ => ⟨posted_timeout task, created⟩⟩
  have globals : (sched.exitTask task).toGlobals =
      if (sched.status task).running then { sched.toGlobals with losTaskLock := 0 }
      else sched.toGlobals := touches.globals.trans posted_toGlobals
  have config : (sched.exitTask task).config = sched.config := by
    rw [globals]
    split <;> rfl
  rw [Sched.deleteTask]
  split
  · rename_i runs
    rw [if_pos runs] at globals
    split
    · rename_i joinable
      refine ⟨exited, gone, fun one differs _ => tcb one differs, home, ?_, fun before => ?_⟩
      · rw [globals, deletedGlobals, if_pos runs, if_pos joinable]
      · have marks : ((sched.exitTask task).status sched.runTask).running =
            (sched.status sched.runTask).running ∧
            ((sched.exitTask task).status sched.runTask).unused =
              (sched.status sched.runTask).unused := by
          refine ⟨congrArg Prod.fst (congrFun flags sched.runTask), ?_⟩
          by_cases its : sched.runTask = task
          · rw [its, status]
            exact posted_unused task
          · rw [Sched.status, tcb _ its]
            exact posted_unused _
        refine ⟨?_, ?_⟩
        · rw [globals]
          exact marks.1.trans before.running
        · rw [globals]
          exact fun real => marks.2.trans (before.created real)
    · rename_i detached
      rw [Bool.not_eq_true] at detached
      have last : ((sched.exitTask task).status task).joinable = false :=
        (congrArg Prod.snd (congrFun flags task)).trans detached
      have finished := exited.finishTask free (by rw [status] at last ⊢; exact ⟨rfl, rfl, last⟩)
        (config.symm ▸ real) (config.symm ▸ other)
      have filled : ((sched.exitTask task).finishTask task).tcb = update
          (sched.exitTask task).tcb task { (sched.exitTask task).tcb task with
            taskStatus := { (sched.exitTask task).status task with unused := true } } := rfl
      have beyond : sched.config.taskMaxNum ≠ task := (Nat.ne_of_lt real).symm
      refine ⟨?_, ?_, fun one differs bound => ?_, fun one differs => ?_, ?_, fun _ => ?_⟩
      · have last : ((sched.exitTask task).finishTask task).status task =
            { (sched.posted task).status task with
              ready := false, pend := false, delay := false, pendTime := false, exit := true
              unused := true } := by
          rw [Sched.status, filled, update_self, status]
        have stands := finished.standIn
          { ((sched.exitTask task).finishTask task).status task with running := true }
          (by rw [last]) (by rw [last]) (by rw [last]) (by rw [last])
        exact stands.globals { (sched.exitTask task).toGlobals with
          runTask := (sched.exitTask task).config.taskMaxNum, deletedTaskID := task } rfl
      · have its : ((sched.exitTask task).osRunningTaskDelete task).tcb task =
            ((sched.exitTask task).finishTask task).tcb task := by
          show update _ (sched.exitTask task).config.taskMaxNum _ task = _
          rw [config, update_of_ne beyond.symm]
        have place : ((sched.exitTask task).osRunningTaskDelete task).home task =
            some .taskRecycleList := by
          show ((sched.exitTask task).finishTask task).home task = _
          rw [Sched.finishTask, losListTailInsert_home, modifyStatus_home, if_pos free, update_self]
        show (sched.view task).Gone ((((sched.exitTask task).osRunningTaskDelete task).tcb task).view
          (((sched.exitTask task).osRunningTaskDelete task).home task))
        rw [its, place, filled, update_self]
        exact ⟨rfl, .inr rfl, fun ready => Bool.noConfusion ready⟩
      · show update _ (sched.exitTask task).config.taskMaxNum _ one = _
        rw [config, update_of_ne (Nat.ne_of_lt bound), filled,
          update_of_ne differs, tcb one differs]
      · show ((sched.exitTask task).finishTask task).home one = _
        rw [Sched.finishTask, losListTailInsert_home, modifyStatus_home, if_pos free,
          update_of_ne differs, home one differs]
      · show { (sched.exitTask task).toGlobals with
          runTask := (sched.exitTask task).config.taskMaxNum, deletedTaskID := task } = _
        rw [globals, deletedGlobals, if_pos runs, if_neg (by rw [detached]; simp)]
      · have standing : ((sched.exitTask task).osRunningTaskDelete task).tcb
            (sched.exitTask task).config.taskMaxNum = _ := update_self _ _ _
        refine ⟨?_, fun real => absurd real (Nat.lt_irrefl _)⟩
        show (((sched.exitTask task).osRunningTaskDelete task).tcb
          (sched.exitTask task).config.taskMaxNum).taskStatus.running = true
        rw [standing]
  · rename_i stays
    rw [if_neg stays] at globals
    have recycled := exited.recycleExited free (config.symm ▸ real) (config.symm ▸ other) gone
    have touched := @osRecycleTaskResources_touches (sched.exitTask task) task
    refine ⟨recycled.1, recycled.2, fun one differs _ => ?_, fun one differs => ?_, ?_,
      fun before => ?_⟩
    · rw [touched.tcb one differs, tcb one differs]
    · rw [touched.home one differs, home one differs]
    · rw [touched.globals, globals, deletedGlobals, if_neg stays]
    · have differs : sched.runTask ≠ task := by
        rintro rfl
        exact stays before.running
      have same : ((sched.exitTask task).osRecycleTaskResources task).status sched.runTask =
          (sched.posted task).status sched.runTask := by
        rw [Sched.status, touched.tcb _ differs, tcb _ differs]
        rfl
      refine ⟨?_, ?_⟩
      · rw [touched.globals, globals, same]
        exact (congrArg Prod.fst (congrFun posted_flags sched.runTask)).trans before.running
      · rw [touched.globals, globals, same]
        exact fun real => (posted_unused _).trans (before.created real)

end Sched

end TowerSafe.Kernel
