/-
This file sums up what a critical section that begins no wait does to the scheduler. It settles:
waits end or go on, only a task that waited has newly timed out, and the globals that decide what
runs next stay. All that the calls do to the scheduler, but for the beginning of a wait and the
task switch, settles it.
-/

import TowerSafe.Kernel.Calls
import TowerSafe.Kernel.Lifecycle

namespace TowerSafe.Kernel

open Library
open Function (update update_of_ne update_self)

/-! ### Settling -/

/-- A wait went on or ended, only a task that waited has newly timed out, a task that has newly
been created neither waits nor has timed out, and what a waiting task waits for stays. -/
structure TaskView.Quiet (old new : TaskView) : Prop where
  wait : new.wait = old.wait ∨ new.wait = none
  timeout : new.unused = false → new.timeout = true →
    old.timeout = true ∨ old.wait ≠ none ∧ new.wait = none
  created : new.unused = false → old.unused = false ∨ new.wait = none ∧ new.timeout = false
  event : new.wait = none ∨ new.eventMask = old.eventMask ∧ new.eventMode = old.eventMode

namespace TaskView.Quiet

variable {old middle new : TaskView}

theorem refl : old.Quiet old :=
  ⟨.inl rfl, fun _ set => .inl set, fun created => .inl created, .inr ⟨rfl, rfl⟩⟩

theorem of_eq (same : new = old) : old.Quiet new := same ▸ refl

theorem unwait : old.Quiet old.unwait :=
  ⟨.inr rfl, fun _ set => .inl set, fun created => .inl created, .inl rfl⟩

theorem timedOut : old.Quiet old.timedOut := by
  rw [TaskView.timedOut]
  split
  · exact refl
  · rename_i waits
    exact ⟨.inr rfl, fun _ _ => .inr ⟨waits, rfl⟩, fun created => .inl created, .inl rfl⟩

theorem created_of (priority : Nat) : old.Quiet (old.created priority) :=
  ⟨.inr rfl, nofun, fun _ => .inr ⟨rfl, rfl⟩, .inl rfl⟩

theorem priority (priority : Nat) : old.Quiet { old with priority := priority } :=
  ⟨.inl rfl, fun _ set => .inl set, fun created => .inl created, .inr ⟨rfl, rfl⟩⟩

theorem trans (first : old.Quiet middle) (second : middle.Quiet new) : old.Quiet new where
  wait := by
    rcases second.wait with same | ended
    · rw [same]
      exact first.wait
    · exact .inr ended
  timeout alive set := by
    rcases second.timeout alive set with late | ⟨waited, ended⟩
    · rcases second.created alive with born | ⟨-, clear⟩
      · refine (first.timeout born late).imp id fun both => ⟨both.1, ?_⟩
        exact second.wait.elim (fun same => same.trans both.2) id
      · exact absurd (clear.symm.trans set) (by simp)
    · have same := first.wait.resolve_right waited
      exact .inr ⟨same ▸ waited, ended⟩
  created alive := by
    rcases second.created alive with born | new
    · refine (first.created born).imp id fun clear => ?_
      have ended := second.wait.elim (fun same => same.trans clear.1) id
      refine ⟨ended, ?_⟩
      by_contra set
      rw [Bool.not_eq_false] at set
      rcases second.timeout alive set with late | ⟨waited, -⟩
      · exact absurd (clear.2.symm.trans late) (by simp)
      · exact waited clear.1
    · exact .inr new
  event := by
    rcases second.event with ended | same
    · exact .inl ended
    · rcases first.event with ended | before
      · exact .inl (second.wait.elim (fun same => same.trans ended) id)
      · exact .inr ⟨same.1.trans before.1, same.2.trans before.2⟩

end TaskView.Quiet

namespace Sched

variable {sched middle next : Sched} {task other : Nat} {head : WaitHead}

theorem Touches.status (touches : Touches task sched next) (differs : other ≠ task) :
    next.status other = sched.status other := by
  rw [Sched.status, touches.tcb other differs, Sched.status]

/-- What a critical section that begins no wait does to the scheduler. -/
structure Settles (sched next : Sched) : Prop where
  sound : next.Sound
  config : next.config = sched.config
  needSched : next.needSched = sched.needSched
  lock : next.losTaskLock ≠ 0 → sched.losTaskLock ≠ 0
  runTask : next.runTask = sched.runTask ∨ next.runTask = sched.config.taskMaxNum
  quiet : ∀ task, (sched.view task).Quiet (next.view task)
  runs : sched.Runs → next.Runs

theorem Settles.refl (sound : sched.Sound) : Settles sched sched where
  sound := sound
  config := rfl
  needSched := rfl
  lock := id
  runTask := .inl rfl
  quiet _ := .refl
  runs := id

theorem Settles.trans (first : Settles sched middle) (second : Settles middle next) :
    Settles sched next where
  sound := second.sound
  config := second.config.trans first.config
  needSched := second.needSched.trans first.needSched
  lock := first.lock ∘ second.lock
  runTask := by
    rcases second.runTask with same | stands
    · rw [same]
      exact first.runTask
    · rw [stands, first.config]
      exact .inr rfl
  quiet task := (first.quiet task).trans (second.quiet task)
  runs := second.runs ∘ first.runs

theorem Settles.of_touches (touches : Touches task sched next) (sound : next.Sound)
    (quiet : (sched.view task).Quiet (next.view task))
    (runs : sched.Runs → next.Runs) : Settles sched next where
  sound := sound
  config := touches.config
  needSched := congrArg Globals.needSched touches.globals
  lock := by
    rw [touches.globals]
    exact id
  runTask := .inl (congrArg Globals.runTask touches.globals)
  quiet one := by
    by_cases same : one = task
    · exact same ▸ quiet
    · rw [touches.view, update_of_ne same]
      exact .refl
  runs := runs

theorem running_of_flags (flags : next.flags = sched.flags) :
    (next.status task).running = (sched.status task).running :=
  congrArg Prod.fst (congrFun flags task)

theorem Touches.runs (touches : Touches task sched next)
    (running : (next.status task).running = (sched.status task).running)
    (alive : (sched.view task).unused = false → (next.view task).unused = false)
    (before : sched.Runs) : next.Runs where
  running := by
    rw [touches.globals]
    by_cases same : sched.runTask = task
    · rw [same, running]
      exact same ▸ before.running
    · rw [touches.status same]
      exact before.running
  created := by
    rw [touches.globals]
    intro real
    by_cases same : sched.runTask = task
    · rw [same] at real ⊢
      exact alive (same ▸ before.created (same ▸ real))
    · rw [touches.status same]
      exact before.created real

theorem Touches.runs_of_unused (touches : Touches task sched next)
    (unused : (sched.status task).unused = true) (real : task < sched.config.taskMaxNum)
    (before : sched.Runs) : next.Runs := by
  have differs : sched.runTask ≠ task := by
    rintro rfl
    exact absurd ((before.created real).symm.trans unused) (by simp)
  refine ⟨?_, ?_⟩
  · rw [touches.globals, touches.status differs]
    exact before.running
  · rw [touches.globals, touches.status differs]
    exact before.created

theorem Sound.wait_of_runnable (sound : sched.Sound) (runnable : Runnable (sched.status task)) :
    (sched.view task).wait = none := by
  by_contra waits
  exact absurd ((sound.pend_iff.mpr waits).symm.trans runnable.pend) (by simp)

theorem Sound.settles_wake (sound : sched.Sound) (pend : (sched.status task).pend = true) :
    Settles sched (sched.osSchedTaskWake task) := by
  have view := congrFun (@osSchedTaskWake_view sched task) task
  rw [update_self] at view
  refine .of_touches osSchedTaskWake_touches (sound.wake pend) ?_
    (osSchedTaskWake_touches.runs (running_of_flags osSchedTaskWake_flags) ?_)
  · rw [view]
    exact .unwait
  · rw [view]
    exact id

theorem osSchedTaskWake_runnable (pend : (sched.status task).pend = true)
    (runnable : Runnable (sched.status other)) :
    (sched.osSchedTaskWake task).status other = sched.status other := by
  refine osSchedTaskWake_touches.status ?_
  rintro rfl
  exact absurd (runnable.pend.symm.trans pend) (by simp)

theorem Sound.settles_resume (sound : sched.Sound) (suspend : (sched.status task).suspend = true)
    (created : (sched.status task).unused = false) :
    Settles sched (sched.osSchedResume task).1 := by
  have view := congrFun (@Sound.resume_view sched task sound) task
  refine .of_touches osSchedResume_touches (sound.resume suspend created) ?_
    (osSchedResume_touches.runs (running_of_flags osSchedResume_flags) ?_)
  · rw [view]
    split
    · rw [update_self]
      exact .unwait
    · exact .refl
  · rw [view]
    split
    · rw [update_self]
      exact id
    · exact id

theorem Sound.settles_suspend (sound : sched.Sound)
    (created : (sched.status task).unused = false) (other : task ≠ sched.config.idleTaskID) :
    Settles sched (sched.osSchedSuspend task) := by
  have view := congrFun (@Sound.suspend_view sched task sound) task
  refine .of_touches osSchedSuspend_touches (sound.suspend created other) (.of_eq view)
    (osSchedSuspend_touches.runs (running_of_flags osSchedSuspend_flags) ?_)
  rw [view]
  exact id

theorem Sound.settles_modifyTaskSchedParam (sound : sched.Sound) {priority : Nat}
    (low : priority ≤ osTaskPriorityLowest) :
    Settles sched (sched.osSchedModifyTaskSchedParam task priority).1 := by
  have view := congrFun (@Sound.modifyTaskSchedParam_view sched task sound priority) task
  rw [update_self] at view
  refine .of_touches (osSchedModifyTaskSchedParam_touches priority)
    (sound.modifyTaskSchedParam low) ?_ ((osSchedModifyTaskSchedParam_touches priority).runs
      (running_of_flags (osSchedModifyTaskSchedParam_flags priority)) ?_)
  · rw [view]
    exact .priority priority
  · rw [view]
    exact id

theorem osSchedModifyTaskSchedParam_runnable (priority : Nat)
    (runnable : Runnable (sched.status other)) :
    (sched.osSchedModifyTaskSchedParam task priority).1.status other = sched.status other := by
  by_cases same : other = task
  · subst same
    simp only [osSchedModifyTaskSchedParam, runnable.ready]
    simp [status]
  · exact (osSchedModifyTaskSchedParam_touches priority).status same

theorem Sound.settles_newTask (sound : sched.Sound) {param : TskInitParam}
    (free : sched.home task = some .losFreeTask)
    (low : param.usTaskPrio ≤ osTaskPriorityLowest) : Settles sched (sched.newTask task param) := by
  have view := congrFun (@newTask_view sched task param) task
  rw [update_self] at view
  obtain ⟨-, -, unused, real⟩ := free ▸ (sound.placed task).place
  refine .of_touches (newTask_touches param) (sound.newTask free low) ?_
    ((newTask_touches param).runs_of_unused unused real)
  rw [view]
  exact .created_of _

theorem Sound.quiet_beyond (sound : next.Sound) (beyond : next.config.taskMaxNum ≤ task)
    {old : TaskView} : old.Quiet (next.view task) := by
  have free := sound.home_beyond beyond
  have unused : (next.view task).unused = true := (free ▸ (sound.placed task).place).2.2.mpr beyond
  have idle : (next.view task).wait = none := by
    rw [view, free]
    rfl
  exact ⟨.inr idle, fun alive => absurd (unused.symm.trans alive) (by simp),
    fun alive => absurd (unused.symm.trans alive) (by simp), .inl idle⟩

theorem Sound.settles_deleteTask (sound : sched.Sound) (created : (sched.status task).unused = false)
    (other : task ≠ sched.config.idleTaskID) :
    Settles sched (sched.deleteTask task) := by
  have deletes := sound.deleteTask created other
  have globals := deletes.globals
  rw [deletedGlobals] at globals
  have config : (sched.deleteTask task).config = sched.config := by
    rw [globals]
    split
    · split <;> rfl
    · rfl
  refine ⟨deletes.sound, config, ?_, ?_, ?_, fun one => ?_, deletes.runs⟩
  · rw [globals]
    split
    · split <;> rfl
    · rfl
  · rw [globals]
    split
    · split <;> exact fun locked => absurd rfl locked
    · exact id
  · rw [globals]
    split
    · split
      · exact .inl rfl
      · exact .inr rfl
    · exact .inl rfl
  · by_cases same : one = task
    · subst same
      have gone := deletes.gone
      exact ⟨.inr gone.wait, fun alive set => .inl ((gone.timeout alive).1.symm.trans set),
        fun alive => .inl (gone.timeout alive).2, .inl gone.wait⟩
    · by_cases real : one < sched.config.taskMaxNum
      · rw [deletes.view same real]
        rcases @posted_view sched task one with kept | ⟨-, ended⟩
        · exact .of_eq kept
        · rw [ended]
          exact .unwait
      · exact deletes.sound.quiet_beyond (config.symm ▸ Nat.not_lt.mp real)

theorem Sound.settles_join (sound : sched.Sound) (real : task < sched.config.taskMaxNum)
    (idle : task ≠ sched.config.idleTaskID) (other : task ≠ sched.runTask)
    (going : ((sched.modifyStatus task
      fun status => { status with joinable := false }).osRecycleTaskResources task).failed = false) :
    Settles sched ((sched.modifyStatus task
      fun status => { status with joinable := false }).osRecycleTaskResources task) ∧
    sched.home task = none := by
  have eq : (sched.modifyStatus task
      fun status => { status with joinable := false }).osRecycleTaskResources task =
      (sched.modifyStatus task
        fun status => { status with joinable := false }).osInsertTCBToFreeList task := by
    rw [osRecycleTaskResources, modifyStatus_status, update_self]
    rfl
  rw [eq] at going ⊢
  have free : sched.home task = none := by
    have clear : (sched.failed || (sched.home task).isSome) = false := going
    rw [Bool.or_eq_false_iff, Option.isSome_eq_false_iff, Option.isNone_iff_eq_none] at clear
    exact clear.2
  have touches : Touches task sched (sched.modifyStatus task
      fun status => { status with joinable := false }) := modifyStatus_touches _
  refine ⟨.of_touches (touches.trans osInsertTCBToFreeList_touches) ?_ ?_ fun before => ?_, free⟩
  · refine sound.toFreeList touches free rfl (fun priority => ?_) real idle
    rw [free]
    simp
  · have freed : (sched.modifyStatus task
        fun status => { status with joinable := false }).home task = none := free
    rw [osInsertTCBToFreeList_view freed, update_self]
    exact ⟨.inr rfl, fun ready => Bool.noConfusion ready, fun pend => Bool.noConfusion pend,
      .inl rfl⟩
  · have differs := other.symm
    have same := (touches.trans osInsertTCBToFreeList_touches).status differs
    exact ⟨same ▸ before.running, fun real => same ▸ before.created real⟩

theorem osRecycleFinishedTask_cases : sched.osRecycleFinishedTask = sched ∨
    ∃ task, sched.home task = some .taskRecycleList ∧
      Touches task sched sched.osRecycleFinishedTask := by
  rw [osRecycleFinishedTask]
  split
  · rename_i finished found
    exact .inr ⟨finished, sched.chains.home_of_first found,
      losListDelete_touches.trans osRecycleTaskResources_touches⟩
  · exact .inl rfl

theorem Sound.settles_recycleFinishedTask (sound : sched.Sound) :
    Settles sched sched.osRecycleFinishedTask := by
  obtain ⟨recycled, views⟩ := sound.recycleFinishedTask
  rcases @osRecycleFinishedTask_cases sched with same | ⟨finished, here, touches⟩
  · rw [same]
    exact .refl sound
  obtain ⟨-, -, unused, real, -⟩ := here ▸ (sound.placed finished).place
  refine .of_touches touches recycled ?_ (touches.runs_of_unused unused real)
  rcases views finished with same | ⟨-, freed⟩
  · exact .of_eq same
  · rw [freed]
    exact ⟨.inr rfl, nofun, nofun, .inl rfl⟩

theorem Sound.recycleFinishedTask_runnable (sound : sched.Sound)
    (runnable : Runnable (sched.status task)) :
    sched.osRecycleFinishedTask.status task = sched.status task := by
  rcases @osRecycleFinishedTask_cases sched with same | ⟨finished, here, touches⟩
  · rw [same]
  obtain ⟨-, -, unused, -⟩ := here ▸ (sound.placed finished).place
  refine touches.status ?_
  rintro rfl
  exact absurd (runnable.unused.symm.trans unused) (by simp)

theorem osRecycleFinishedTask_toGlobals :
    sched.osRecycleFinishedTask.toGlobals = sched.toGlobals := by
  rcases @osRecycleFinishedTask_cases sched with same | ⟨_, _, touches⟩
  · rw [same]
  · exact touches.globals

theorem Sound.settles_clearJoinable (sound : sched.Sound) : Settles sched
    (sched.modifyStatus task fun status => { status with joinable := false }) := by
  have placed := sound.placed task
  have view : (sched.modifyStatus task fun status =>
      { status with joinable := false }).view = sched.view := modifyStatus_view rfl rfl rfl
  refine .of_touches (modifyStatus_touches _) (sound.modify _ ⟨placed.ready, placed.priority,
    placed.idle, placed.unused, ?_⟩) (.of_eq (congrFun view task))
    ((modifyStatus_touches _).runs ?_ ?_)
  · have place := placed.place
    cases found : sched.home task with
    | none =>
      rw [found] at place
      exact place
    | some list =>
      rw [found] at place
      cases list with
      | priQueue _ => exact place
      | wait _ => exact place
      | losFreeTask => exact place
      | taskRecycleList => exact ⟨place.1, place.2.1, place.2.2.1, place.2.2.2.1, rfl⟩
  · rw [modifyStatus_status, update_self]
  · rw [view]
    exact id

theorem Sound.settles_detach (sound : sched.Sound) :
    Settles sched (sched.osTaskSetDetachUnsafe task).1 := by
  rw [osTaskSetDetachUnsafe]
  split
  · split
    · exact sound.settles_clearJoinable
    · exact .refl sound
  · exact .refl sound

theorem osTaskSetDetachUnsafe_runnable (runnable : Runnable (sched.status other)) :
    Runnable ((sched.osTaskSetDetachUnsafe task).1.status other) := by
  rw [osTaskSetDetachUnsafe]
  split
  · split
    · by_cases same : other = task
      · subst same
        rw [modifyStatus_status, update_self]
        exact ⟨runnable.ready, runnable.pend, runnable.delay, runnable.pendTime, runnable.suspend,
          runnable.unused⟩
      · rw [(modifyStatus_touches _).status same]
        exact runnable
    · exact runnable
  · exact runnable

theorem clearTimeout_view :
    (sched.modifyStatus task fun status => { status with timeout := false }).view =
      update sched.view task { sched.view task with timeout := false } := by
  rw [(modifyStatus_touches _).view]
  rw [Sched.view, modifyStatus_tcb, update_self]
  rfl

theorem Sound.settles_clearTimeout (sound : sched.Sound) :
    Settles sched (sched.modifyStatus task fun status => { status with timeout := false }) := by
  have view := congrFun (@clearTimeout_view sched task) task
  rw [update_self] at view
  refine .of_touches (modifyStatus_touches _) (sound.clearBits rfl rfl rfl rfl id id id id) ?_
    ((modifyStatus_touches _).runs ?_ ?_)
  · rw [view]
    exact ⟨.inl rfl, fun _ set => absurd set (by simp), fun created => .inl created,
      .inr ⟨rfl, rfl⟩⟩
  · rw [modifyStatus_status, update_self]
  · rw [view]
    exact id

theorem Sound.settles_wakeReaders (events eventID : BitVec 32) (nodes : List Nat)
    (sound : sched.Sound) (distinct : nodes.Nodup)
    (waiting : ∀ reader ∈ nodes, (sched.status reader).pend = true) :
    Settles sched (Machine.wakeReaders events eventID nodes sched).1 ∧
      (Machine.wakeReaders events eventID nodes sched).1.toGlobals = sched.toGlobals ∧
      ∀ other, other ∉ nodes →
        (Machine.wakeReaders events eventID nodes sched).1.status other = sched.status other := by
  induction nodes generalizing sched with
  | nil => exact ⟨.refl sound, rfl, fun _ _ => rfl⟩
  | cons reader rest hypothesis =>
    obtain ⟨fresh, distinct⟩ := List.nodup_cons.mp distinct
    have pend := waiting reader List.mem_cons_self
    rw [Machine.wakeReaders]
    split
    · have woken := sound.settles_wake pend
      obtain ⟨settles, globals, others⟩ := hypothesis woken.sound distinct fun one member => by
          have differs : one ≠ reader := by
            rintro rfl
            exact fresh member
          rw [osSchedTaskWake_touches.status differs]
          exact waiting one (List.mem_cons_of_mem _ member)
      refine ⟨woken.trans settles, globals.trans osSchedTaskWake_touches.globals,
        fun other outside => ?_⟩
      rw [List.mem_cons, not_or] at outside
      rw [others other outside.2, osSchedTaskWake_touches.status outside.1]
    · obtain ⟨settles, globals, others⟩ := hypothesis sound distinct fun one member =>
        waiting one (List.mem_cons_of_mem _ member)
      exact ⟨settles, globals, fun other outside =>
        others other (mt (List.mem_cons_of_mem _) outside)⟩

end Sched

end TowerSafe.Kernel
