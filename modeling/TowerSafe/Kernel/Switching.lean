/-
This file is about the running task: how it starts to wait, and how the switch puts it away and
chooses the next one. The chosen task is the first of the most urgent ready queue, or the idle
task when all queues are empty, so it can run; and the switch changes nothing of what the calls
look at.
-/

import TowerSafe.Kernel.Moves

namespace TowerSafe.Kernel

open Library
open Function (update update_self)

/-- A task can run: it is in no list and waits for nothing. -/
structure Runnable (status : TaskStatus) : Prop where
  ready : status.ready = false
  pend : status.pend = false
  delay : status.delay = false
  pendTime : status.pendTime = false
  suspend : status.suspend = false
  unused : status.unused = false

def TaskView.waitIn (view : TaskView) (head : WaitHead) : TaskView :=
  { view with wait := some head }

namespace Sched

variable {sched next : Sched} {task other : Nat} {head : WaitHead}

/-! ### Beginning to wait -/

theorem Sound.home_of_runnable (sound : sched.Sound) (runnable : Runnable (sched.status task)) :
    sched.home task = none :=
  sound.unlinked runnable.ready runnable.pend runnable.unused

theorem pendRunTask_touches : Touches sched.runTask sched (sched.pendRunTask head) :=
  (modifyStatus_touches _).trans (losListTailInsert_touches _)

theorem osSchedTaskWait_touches (ticks : Nat) :
    Touches sched.runTask sched (sched.osSchedTaskWait head ticks) := by
  rw [osSchedTaskWait]
  split
  · exact pendRunTask_touches.trans (modify_touches _)
  · exact pendRunTask_touches

theorem pendRunTask_home (free : sched.home sched.runTask = none) : (sched.pendRunTask head).home =
      update sched.home sched.runTask (some (.wait head)) := by
  rw [pendRunTask, losListTailInsert_home, modifyStatus_home, if_pos free]

theorem pendRunTask_tcb : (sched.pendRunTask head).tcb = update sched.tcb sched.runTask
      { sched.tcb sched.runTask with
        taskStatus := { sched.status sched.runTask with pend := true } } :=
  rfl

theorem osSchedTaskWait_view (ticks : Nat) (free : sched.home sched.runTask = none) :
    (sched.osSchedTaskWait head ticks).view =
      update sched.view sched.runTask ((sched.view sched.runTask).waitIn head) := by
  rw [(osSchedTaskWait_touches ticks).view]
  congr 1
  have pended : (sched.pendRunTask head).view sched.runTask =
      (sched.view sched.runTask).waitIn head := by
    rw [view, pendRunTask_home free, pendRunTask_tcb, update_self, update_self]
    rfl
  rw [osSchedTaskWait]
  split
  · rw [view, modify_tcb, update_self, modify_home, ← pended]
    rfl
  · exact pended

theorem osSchedTaskWait_flags (ticks : Nat) :
    (sched.osSchedTaskWait head ticks).flags = sched.flags := by
  have pended : (sched.pendRunTask head).flags = sched.flags := by
    refine flags_congr pendRunTask_touches ?_
    rw [status, pendRunTask_tcb, update_self]
    rfl
  rw [osSchedTaskWait]
  split
  · refine (flags_congr (modify_touches _) ?_).trans pended
    rw [status, modify_tcb, update_self]
    rfl
  · exact pended

theorem Sound.pendRunTask (sound : sched.Sound) (runnable : Runnable (sched.status sched.runTask))
    (other : sched.runTask ≠ sched.config.idleTaskID) : (sched.pendRunTask head).Sound := by
  have free := sound.home_of_runnable runnable
  refine sound.touch pendRunTask_touches ?_ rfl fun priority => ?_
  · rw [pendRunTask_home free, pendRunTask_tcb, update_self, update_self]
    exact ⟨fun ready => absurd (runnable.ready.symm.trans ready) (by simp),
      (sound.placed sched.runTask).priority, fun same => absurd same other,
      (sound.placed sched.runTask).unused, runnable.ready, rfl, runnable.unused, other,
      sound.real runnable.unused⟩
  · rw [pendRunTask_home free, free]
    simp

theorem Sound.taskWait (sound : sched.Sound) (runnable : Runnable (sched.status sched.runTask))
    (other : sched.runTask ≠ sched.config.idleTaskID) (ticks : Nat) :
    (sched.osSchedTaskWait head ticks).Sound := by
  have pended := @Sound.pendRunTask sched head sound runnable other
  rw [osSchedTaskWait]
  split
  · refine pended.modify _ ((pended.placed sched.runTask).harden rfl rfl rfl rfl rfl ?_ ?_ ?_)
    · rw [pendRunTask_tcb, update_self]
      exact runnable.ready
    · rw [pendRunTask_tcb, update_self]
      exact runnable.unused
    · exact other
  · exact pended

theorem osSchedDelay_touches (tick : Nat) : Touches sched.runTask sched (sched.osSchedDelay tick) :=
  modify_touches _

theorem osSchedDelay_view (tick : Nat) : (sched.osSchedDelay tick).view = sched.view := by
  refine (osSchedDelay_touches tick).view_eq ?_
  rw [view, osSchedDelay, modify_tcb, update_self]
  rfl

theorem Sound.delay (sound : sched.Sound) (runnable : Runnable (sched.status sched.runTask))
    (other : sched.runTask ≠ sched.config.idleTaskID) (tick : Nat) :
    (sched.osSchedDelay tick).Sound :=
  sound.modify _ ((sound.placed sched.runTask).harden rfl rfl rfl rfl rfl runnable.ready
    runnable.unused other)

theorem osSchedYield_touches : Touches sched.runTask sched sched.osSchedYield := modify_touches _

theorem osSchedYield_status : sched.osSchedYield.status = sched.status := by
  funext one
  by_cases same : one = sched.runTask <;> simp [status, osSchedYield, same]

theorem osSchedYield_view : sched.osSchedYield.view = sched.view := by
  refine osSchedYield_touches.view_eq ?_
  rw [view, osSchedYield, modify_tcb, update_self]
  rfl

section

variable (sound : sched.Sound)
include sound

theorem Sound.yield : sched.osSchedYield.Sound :=
  sound.modify _ ((sound.placed sched.runTask).soften rfl rfl rfl rfl rfl id id id id)

/-! ### Choosing the next task -/

theorem Sound.home_idle : sched.home sched.config.idleTaskID = none := by
  have placed := sound.placed sched.config.idleTaskID
  have place := placed.place
  have created := (placed.idle rfl).2.2.2.2
  cases found : sched.home sched.config.idleTaskID with
  | none => rfl
  | some list =>
    rw [found] at place
    cases list with
    | priQueue _ => exact absurd rfl place.2.2.2.1
    | wait _ => exact absurd rfl place.2.2.2.1
    | losFreeTask => exact absurd (created.symm.trans place.2.2.1) (by simp)
    | taskRecycleList => exact absurd (created.symm.trans place.2.2.1) (by simp)

theorem Sound.queued {priority : Nat}
    (linked : sched.home task = some (.priQueue priority)) :
    (sched.status task).ready = true ∧ (sched.status task).unused = false ∧
      task ≠ sched.config.idleTaskID ∧ priority = (sched.tcb task).priority ∧
      priority ≤ osTaskPriorityLowest := by
  have placed := sound.placed task
  have place := placed.place
  rw [linked] at place
  obtain ⟨ready, -, created, other, real, same⟩ := place
  exact ⟨ready, created, other, same, same ▸ placed.priority real⟩

theorem Sound.topTask :
    (∃ priority, sched.home sched.osGetTopTask = some (.priQueue priority) ∧
      ∀ task urgency, sched.home task = some (.priQueue urgency) → priority ≤ urgency) ∨
    (sched.osGetTopTask = sched.config.idleTaskID ∧
      ∀ task urgency, sched.home task ≠ some (.priQueue urgency)) := by
  by_cases empty : sched.queueBitmap = 0
  · refine .inr ⟨by rw [osGetTopTask, if_neg (not_not.mpr empty)], fun task urgency linked => ?_⟩
    have marked := (sound.marked urgency (sound.queued linked).2.2.2.2).mpr ⟨task, linked⟩
    rw [empty] at marked
    simp at marked
  · have low : sched.queueBitmap.clz.toNat < 32 := BitVec.clz_lt_iff_ne_zero.mpr empty
    have top := BitVec.getLsbD_true_clz_of_ne_zero (by decide) empty
    obtain ⟨first, linked⟩ := (sound.marked sched.queueBitmap.clz.toNat (by
      rw [osTaskPriorityLowest]; omega)).mp top
    refine .inl ⟨sched.queueBitmap.clz.toNat, ?_, fun task urgency queued => ?_⟩
    · cases found : sched.chains.first (.priQueue sched.queueBitmap.clz.toNat) with
      | none => exact absurd linked (sched.chains.first_eq_none_iff.mp found first)
      | some chosen =>
        rw [osGetTopTask, if_pos empty, found]
        exact sched.chains.home_of_first found
    · have bound := (sound.queued queued).2.2.2.2
      have marked := (sound.marked urgency bound).mpr ⟨task, queued⟩
      by_contra above
      have least : 2 ^ (31 - urgency) ≤ sched.queueBitmap.toNat := Nat.ge_two_pow_of_testBit marked
      have most : sched.queueBitmap.toNat < 2 ^ (32 - sched.queueBitmap.clz.toNat) :=
        BitVec.toNat_lt_two_pow_sub_clz
      have order : 2 ^ (32 - sched.queueBitmap.clz.toNat) ≤ 2 ^ (31 - urgency) :=
        Nat.pow_le_pow_right (by decide) (by omega)
      omega

theorem Sound.topTask_clean :
    let status := sched.status sched.osGetTopTask
    status.pend = false ∧ status.delay = false ∧ status.pendTime = false ∧
      status.suspend = false ∧ status.unused = false := by
  rcases sound.topTask with ⟨priority, linked, -⟩ | ⟨idle, -⟩
  · obtain ⟨ready, created, -⟩ := sound.queued linked
    obtain ⟨suspend, delay, pendTime⟩ := (sound.placed sched.osGetTopTask).ready ready
    exact ⟨sound.pend_of_ready ready, delay, pendTime, suspend, created⟩
  have free := sound.home_idle
  have placed := sound.placed sched.config.idleTaskID
  have place := placed.place
  rw [free] at place
  obtain ⟨suspend, delay, pendTime, -, created⟩ := placed.idle rfl
  simp only [idle]
  exact ⟨place.2.1, delay, pendTime, suspend, created⟩

end

/-! ### The switch -/

theorem osSchedTaskEnQueue_failed : (sched.osSchedTaskEnQueue task).failed =
    (sched.failed || (sched.status task).ready ||
      (decide (task ≠ sched.config.idleTaskID) && (sched.home task).isSome)) := by
  rw [osSchedTaskEnQueue]
  split
  · simp [modifyStatus, modify, losAssert, *]
  simp only [osSchedTaskEnList]
  split <;> simp [modifyStatus, modify, losAssert, osSchedPriQueueEnHead, osSchedPriQueueEnTail,
      losListAdd, losListTailInsert, markPriQueue, *] <;> rfl

theorem parkRunTask_touches : Touches sched.runTask sched sched.parkRunTask := by
  rw [parkRunTask]
  split
  · exact osAdd2SortLink_touches _ _
  · split
    · exact osSchedTaskEnQueue_touches sched sched.runTask
    · exact .refl

theorem parkRunTask_view : sched.parkRunTask.view = sched.view := by
  rw [parkRunTask]
  split
  · exact osAdd2SortLink_view _ _
  · split
    · exact osSchedTaskEnQueue_view
    · rfl

theorem Sound.park (sound : sched.Sound) (going : sched.parkRunTask.failed = false) :
    sched.parkRunTask.Sound := by
  rw [parkRunTask] at going ⊢
  split
  · exact sound.add2SortLink _ _
  rename_i awake
  rw [if_neg awake] at going
  split
  · rename_i clear
    rw [if_pos clear, osSchedTaskEnQueue_failed, Bool.or_eq_false_iff, Bool.and_eq_false_iff,
      decide_eq_false_iff_not, not_not, Option.isSome_eq_false_iff, Option.isNone_iff_eq_none]
      at going
    have created : (sched.status sched.runTask).unused = false := by
      simp only [TaskStatus.blocked, Bool.not_eq_true', Bool.or_eq_false_iff] at clear
      exact clear.2
    refine sound.enQueue (going.2.elim (fun idle => ?_) id) (sound.real created)
    rw [idle]
    exact sound.home_idle
  · exact sound

theorem runNewTask_home (newTask : Nat) : (sched.runNewTask newTask).home = sched.home := by
  rw [runNewTask]
  split <;> rfl

theorem runNewTask_tcb (newTask one : Nat) : ∃ running startTime,
    (sched.runNewTask newTask).tcb one = { sched.tcb one with
        taskStatus := { sched.status one with running := running }, startTime := startTime } := by
  rw [runNewTask]
  split
  · rename_i differs
    by_cases new : one = newTask
    · subst new
      exact ⟨true, (sched.tcb sched.runTask).startTime, by simp [modifyStatus, differs, status]⟩
    by_cases old : one = sched.runTask
    · subst old
      exact ⟨false, (sched.tcb sched.runTask).startTime, by
        simp [new, modifyStatus, status]⟩
    · exact ⟨(sched.status one).running, (sched.tcb one).startTime, by
        simp [new, old, modifyStatus, status]⟩
  · exact ⟨(sched.status one).running, (sched.tcb one).startTime, rfl⟩

theorem runNewTask_running (newTask : Nat) (running : (sched.status sched.runTask).running = true) :
    ((sched.runNewTask newTask).status newTask).running = true := by
  rw [runNewTask]
  split
  · simp [status]
  · rename_i same
    rw [not_not.mp same]
    exact running

theorem runNewTask_toGlobals (newTask : Nat) : (sched.runNewTask newTask).toGlobals =
    { sched.toGlobals with runTask := newTask } := by
  rw [runNewTask]
  split
  · rfl
  · rename_i same
    rw [not_not.mp same]

theorem runNewTask_view (newTask : Nat) : (sched.runNewTask newTask).view = sched.view := by
  funext one
  obtain ⟨running, startTime, tcb⟩ := @runNewTask_tcb sched newTask one
  rw [view, tcb, runNewTask_home]
  rfl

theorem Sound.runNewTask (sound : sched.Sound) (newTask : Nat) :
    (sched.runNewTask newTask).Sound where
  placed one := by
    obtain ⟨running, startTime, tcb⟩ := @runNewTask_tcb sched newTask one
    rw [tcb, runNewTask_home, runNewTask_toGlobals]
    exact (sound.placed one).soften rfl rfl rfl rfl rfl id id id id
  marked := by
    have same : (sched.runNewTask newTask).queueBitmap = sched.queueBitmap := by
      rw [Sched.runNewTask]
      split <;> rfl
    rw [same]
    exact sound.marked.congr fun priority => by rw [Occupied, runNewTask_home, Occupied]
  idle := by
    rw [runNewTask_toGlobals]
    exact sound.idle

def parked (sched : Sched) : Sched :=
  (sched.osTimeSliceUpdate sched.runTask).parkRunTask

theorem parked_touches : Touches sched.runTask sched sched.parked := osTimeSliceUpdate_touches.trans
    (@parkRunTask_touches (sched.osTimeSliceUpdate sched.runTask))

theorem osSchedTaskSwitch_eq : sched.osSchedTaskSwitch =
    (sched.parked.runNewTask sched.parked.osGetTopTask).osSchedTaskDeQueue
      sched.parked.osGetTopTask :=
  rfl

theorem osSchedTaskDeQueue_failed_of_failed (stopped : sched.failed = true) :
    (sched.osSchedTaskDeQueue task).failed = true := by
  rw [osSchedTaskDeQueue]
  split
  · split
    · exact stopped
    · show (sched.failed || _) = true
      rw [stopped, Bool.true_or]
  · exact stopped

theorem runNewTask_failed (newTask : Nat) : (sched.runNewTask newTask).failed = sched.failed := by
  rw [runNewTask]
  split <;> rfl

theorem parked_failed (going : sched.osSchedTaskSwitch.failed = false) :
    sched.parked.failed = false := by
  by_contra stopped
  rw [Bool.not_eq_false] at stopped
  have failed : sched.osSchedTaskSwitch.failed = true := by
    exact osSchedTaskDeQueue_failed_of_failed ((runNewTask_failed _).trans stopped)
  exact absurd (going.symm.trans failed) (by simp)

theorem Sound.parked (sound : sched.Sound) (going : sched.osSchedTaskSwitch.failed = false) :
    sched.parked.Sound :=
  sound.timeSliceUpdate.park (parked_failed going)

theorem Sound.switch (sound : sched.Sound) (going : sched.osSchedTaskSwitch.failed = false) :
    sched.osSchedTaskSwitch.Sound := by
  rw [osSchedTaskSwitch_eq]
  exact ((sound.parked going).runNewTask _).deQueue

theorem home_topTask : (∃ priority, sched.home sched.osGetTopTask = some (.priQueue priority)) ∨
    sched.osGetTopTask = sched.config.idleTaskID := by
  rw [osGetTopTask]
  split
  · cases found : sched.chains.first (.priQueue sched.queueBitmap.clz.toNat) with
    | none => exact .inr rfl
    | some chosen => exact .inl ⟨_, sched.chains.home_of_first found⟩
  · exact .inr rfl

theorem deQueue_view_of_queued (queued : (∃ priority, sched.home task = some (.priQueue priority)) ∨
      task = sched.config.idleTaskID) : (sched.osSchedTaskDeQueue task).view = sched.view := by
  refine (sched.osSchedTaskDeQueue_touches task).view_eq ?_
  rw [view, osSchedTaskDeQueue_tcb, osSchedTaskDeQueue_home, update_self]
  split
  · rename_i linked
    obtain ⟨priority, here⟩ := queued.resolve_right linked.2
    rw [update_self, view, here]
    rfl
  · rfl

theorem osSchedTaskSwitch_view : sched.osSchedTaskSwitch.view = sched.view := by
  have parked : sched.parked.view = sched.view := parkRunTask_view.trans osTimeSliceUpdate_view
  rw [osSchedTaskSwitch_eq, deQueue_view_of_queued, runNewTask_view, parked]
  rw [runNewTask_home, runNewTask_toGlobals]
  exact home_topTask

theorem osSchedTaskSwitch_runTask :
    sched.osSchedTaskSwitch.runTask = sched.parked.osGetTopTask := by
  rw [osSchedTaskSwitch_eq, osSchedTaskDeQueue_toGlobals, runNewTask_toGlobals]

theorem osSchedTaskSwitch_toGlobals : sched.osSchedTaskSwitch.toGlobals =
    { sched.toGlobals with runTask := sched.parked.osGetTopTask } := by
  rw [osSchedTaskSwitch_eq, osSchedTaskDeQueue_toGlobals, runNewTask_toGlobals,
    parked_touches.globals]

theorem Sound.switch_runnable (sound : sched.Sound)
    (going : sched.osSchedTaskSwitch.failed = false) :
    Runnable (sched.osSchedTaskSwitch.status sched.osSchedTaskSwitch.runTask) := by
  obtain ⟨pend, delay, pendTime, suspend, created⟩ := (sound.parked going).topTask_clean
  obtain ⟨running, startTime, tcb⟩ :=
    @runNewTask_tcb sched.parked sched.parked.osGetTopTask sched.parked.osGetTopTask
  rw [osSchedTaskSwitch_runTask, osSchedTaskSwitch_eq, osSchedTaskDeQueue_status,
    update_self, status, tcb]
  exact ⟨rfl, pend, delay, pendTime, suspend, created⟩

section

variable (running : (sched.status sched.runTask).running = true)
include running

theorem parkRunTask_running :
    (sched.parkRunTask.status sched.runTask).running = true := by
  rw [parkRunTask]
  split
  · simpa [status, osAdd2SortLink] using running
  split
  · obtain ⟨slice, tcb⟩ := sched.osSchedTaskEnQueue_tcb sched.runTask
    rw [status, tcb, update_self]
    exact running
  · exact running

theorem parked_running :
    (sched.parked.status sched.runTask).running = true := by
  refine @parkRunTask_running (sched.osTimeSliceUpdate sched.runTask) ?_
  rw [osTimeSliceUpdate_status]
  exact running

theorem osSchedTaskSwitch_running :
    (sched.osSchedTaskSwitch.status sched.osSchedTaskSwitch.runTask).running = true := by
  rw [osSchedTaskSwitch_runTask, osSchedTaskSwitch_eq, osSchedTaskDeQueue_status, update_self]
  refine runNewTask_running _ ?_
  rw [parked_touches.globals]
  exact parked_running running

end

/-! ### The tick -/

theorem ticked_toGlobals (scanTimer : Bool) :
    (sched.ticked scanTimer).toGlobals = sched.toGlobals := by
  cases scanTimer with
  | false => rfl
  | true => exact scanTimerList_toGlobals sched.taskSortLink

theorem ticked_flags (scanTimer : Bool) : (sched.ticked scanTimer).flags = sched.flags := by
  have sliced : ∀ before : Sched,
      (before.osTimeSliceUpdate sched.runTask).flags = before.flags := by
    intro before
    funext one
    rw [flags, osTimeSliceUpdate_status, flags]
  rw [ticked, sliced]
  cases scanTimer with
  | false => rfl
  | true => exact scanTimerList_flags sched.taskSortLink

theorem Sound.ticked (sound : sched.Sound) (scanTimer : Bool) : (sched.ticked scanTimer).Sound := by
  cases scanTimer with
  | false => exact sound.timeSliceUpdate
  | true => exact (sound.scan sched.taskSortLink).1.timeSliceUpdate

theorem Sound.ticked_view (sound : sched.Sound) (scanTimer : Bool) (task : Nat) :
    (sched.ticked scanTimer).view task = sched.view task ∨
      (sched.ticked scanTimer).view task = (sched.view task).timedOut := by
  rw [Sched.ticked, osTimeSliceUpdate_view]
  cases scanTimer with
  | false => exact .inl rfl
  | true => exact (sound.scan sched.taskSortLink).2 task

theorem ticked_status (scanTimer : Bool) (pend : (sched.status task).pend = false)
    (delay : (sched.status task).delay = false) :
    (sched.ticked scanTimer).status task = sched.status task := by
  rw [ticked, osTimeSliceUpdate_status]
  cases scanTimer with
  | false => rfl
  | true => exact scanTimerList_status sched.taskSortLink pend delay

end Sched

end TowerSafe.Kernel
