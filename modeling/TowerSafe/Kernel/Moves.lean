/-
This file says what every function of the scheduler does to the task it is about: which task is
touched at all, that the scheduler stays in order, and what changes of the part of the task
that the calls look at. Most functions move a task between being ready, being suspended and
being delayed, and change nothing of that part.
-/

import TowerSafe.Kernel.Placement

namespace TowerSafe.Kernel

open Library
open Function (update update_self update_of_ne)

/-- What the calls look at of a task: the list it waits in, whether its time ran out, whether it
was deleted, its priority and the event it reads. -/
structure TaskView where
  wait : Option WaitHead
  timeout : Bool
  exit : Bool
  unused : Bool
  priority : Nat
  eventMask : BitVec 32
  eventMode : BitVec 32

def TaskView.unwait (view : TaskView) : TaskView :=
  { view with wait := none }

def TaskView.timedOut (view : TaskView) : TaskView :=
  if view.wait = none then view else { view with wait := none, timeout := true }

/-- Whether a task is marked as running and whether it is joinable. -/
def TaskStatus.flags (status : TaskStatus) : Bool × Bool :=
  (status.running, status.joinable)

def ListHead.waitHead : ListHead → Option WaitHead
  | .wait head => some head
  | _ => none

/-- What the calls look at of a control block that is linked in a list. -/
def LosTaskCB.view (taskCB : LosTaskCB) (home : Option ListHead) : TaskView where
  wait := home.bind ListHead.waitHead
  timeout := taskCB.taskStatus.timeout
  exit := taskCB.taskStatus.exit
  unused := taskCB.taskStatus.unused
  priority := taskCB.priority
  eventMask := taskCB.eventMask
  eventMode := taskCB.eventMode

namespace Sched

def view (sched : Sched) (task : Nat) : TaskView :=
  (sched.tcb task).view (sched.home task)

variable {sched next : Sched} {task other : Nat} {head : WaitHead}

theorem view_wait_eq_some_iff :
    (sched.view task).wait = some head ↔ sched.home task = some (.wait head) := by
  cases found : sched.home task with
  | none => simp [view, LosTaskCB.view, found]
  | some list => cases list <;> simp [view, LosTaskCB.view, found, ListHead.waitHead]

/-- A task that is pending waits in a list. -/
theorem Sound.pend_iff (sound : sched.Sound) :
    (sched.status task).pend = true ↔ (sched.view task).wait ≠ none := by
  have place := (sound.placed task).place
  cases found : sched.home task with
  | none =>
    rw [found] at place
    simp [view, LosTaskCB.view, found, status, place.2.1]
  | some list =>
    rw [found] at place
    cases list with
    | wait _ => simp [view, LosTaskCB.view, found, ListHead.waitHead, status, place.2.1]
    | priQueue _ => simp [view, LosTaskCB.view, found, ListHead.waitHead, status, place.2.1]
    | losFreeTask => simp [view, LosTaskCB.view, found, ListHead.waitHead, status, place.2.1]
    | taskRecycleList => simp [view, LosTaskCB.view, found, ListHead.waitHead, status, place.2.1]

theorem home_of_firstWaiter (found : sched.firstWaiter head = some task) :
    sched.home task = some (.wait head) :=
  sched.chains.home_of_first found

theorem firstWaiter_eq_none_iff :
    sched.firstWaiter head = none ↔ ∀ task, sched.home task ≠ some (.wait head) :=
  sched.chains.first_eq_none_iff

theorem Touches.view (touches : Touches task sched next) :
    next.view = update sched.view task (next.view task) := by
  funext one
  by_cases same : one = task
  · rw [same, update_self]
  · rw [update_of_ne same, Sched.view, Sched.view, touches.tcb one same, touches.home one same]

theorem Touches.view_eq (touches : Touches task sched next)
    (same : next.view task = sched.view task) : next.view = sched.view := by
  rw [touches.view, same, Function.update_eq_self]

theorem Touches.refl : Touches task sched sched := ⟨rfl, fun _ _ => rfl, fun _ _ => rfl⟩

theorem modify_touches (change : LosTaskCB → LosTaskCB) :
    Touches task sched (sched.modify task change) :=
  ⟨rfl, fun _ differs => update_of_ne differs _ _, fun _ _ => rfl⟩

theorem modifyStatus_touches (change : TaskStatus → TaskStatus) :
    Touches task sched (sched.modifyStatus task change) :=
  modify_touches _

theorem losListDelete_touches : Touches task sched (sched.losListDelete task) :=
  ⟨rfl, fun _ _ => rfl, fun _ differs => update_of_ne differs _ _⟩

theorem losListAdd_touches (list : ListHead) : Touches task sched (sched.losListAdd task list) :=
  ⟨rfl, fun _ _ => rfl, fun other differs => by
    rw [losListAdd_home]
    split
    · exact update_of_ne differs _ _
    · rfl⟩

theorem losListTailInsert_touches (list : ListHead) :
    Touches task sched (sched.losListTailInsert task list) :=
  ⟨rfl, fun _ _ => rfl, fun other differs => by
    rw [losListTailInsert_home]
    split
    · exact update_of_ne differs _ _
    · rfl⟩

end Sched

variable {config : Config} {task : Nat} {old new : LosTaskCB} {home : Option ListHead}

theorem Place.congr (place : Place config task old home)
    (ready : new.taskStatus.ready = old.taskStatus.ready)
    (pend : new.taskStatus.pend = old.taskStatus.pend)
    (unused : new.taskStatus.unused = old.taskStatus.unused)
    (joinable : new.taskStatus.joinable = old.taskStatus.joinable)
    (priority : new.priority = old.priority) : Place config task new home := by
  cases home with
  | none => simpa only [Place, ready, pend, unused] using place
  | some list =>
    cases list <;> simpa only [Place, ready, pend, unused, joinable, priority] using place

section

variable (placed : Placed config task old home)
  (ready : new.taskStatus.ready = old.taskStatus.ready)
  (pend : new.taskStatus.pend = old.taskStatus.pend)
  (unused : new.taskStatus.unused = old.taskStatus.unused)
  (joinable : new.taskStatus.joinable = old.taskStatus.joinable)
  (priority : new.priority = old.priority)
include placed ready pend unused joinable priority

theorem Placed.soften
    (suspend : new.taskStatus.suspend = true → old.taskStatus.suspend = true)
    (delay : new.taskStatus.delay = true → old.taskStatus.delay = true)
    (pendTime : new.taskStatus.pendTime = true → old.taskStatus.pendTime = true)
    (exit : new.taskStatus.exit = true → old.taskStatus.exit = true) :
    Placed config task new home where
  ready set := by
    have clean := placed.ready (ready ▸ set)
    simp only [← Bool.not_eq_true] at clean ⊢
    exact ⟨mt suspend clean.1, mt delay clean.2.1, mt pendTime clean.2.2⟩
  priority real := priority ▸ placed.priority real
  idle same := by
    have clean := placed.idle same
    rw [unused]
    simp only [← Bool.not_eq_true] at clean ⊢
    exact ⟨mt suspend clean.1, mt delay clean.2.1, mt pendTime clean.2.2.1, mt exit clean.2.2.2.1,
      clean.2.2.2.2⟩
  unused set := by
    have clean := placed.unused (unused ▸ set)
    simp only [← Bool.not_eq_true] at clean ⊢
    exact mt delay clean
  place := placed.place.congr ready pend unused joinable priority

theorem Placed.harden
    (asleep : old.taskStatus.ready = false) (created : old.taskStatus.unused = false)
    (other : task ≠ config.idleTaskID) :
    Placed config task new home where
  ready set := absurd ((ready.symm.trans set).symm.trans asleep) (by simp)
  priority real := priority ▸ placed.priority real
  idle same := absurd same other
  unused set := absurd ((unused.symm.trans set).symm.trans created) (by simp)
  place := placed.place.congr ready pend unused joinable priority

end

namespace Sched

variable {sched next : Sched} {task other : Nat} {head : WaitHead}

theorem Sound.keep (sound : sched.Sound) (touches : Touches task sched next)
    (placed : Placed sched.config task (next.tcb task) (sched.home task))
    (home : next.home task = sched.home task) (bitmap : next.queueBitmap = sched.queueBitmap) :
    next.Sound :=
  sound.touch touches (home.symm ▸ placed) bitmap fun _ => by rw [home]

/-! ### Ready queues and sort link -/

theorem osSchedTaskEnQueue_view : (sched.osSchedTaskEnQueue task).view = sched.view := by
  refine (sched.osSchedTaskEnQueue_touches task).view_eq ?_
  obtain ⟨slice, tcb⟩ := sched.osSchedTaskEnQueue_tcb task
  rw [view, tcb, osSchedTaskEnQueue_home, update_self]
  split
  · rename_i free
    rw [update_self, view, free.2]
    rfl
  · rfl

theorem Sound.deQueue_view (sound : sched.Sound) :
    (sched.osSchedTaskDeQueue task).view = sched.view := by
  refine (sched.osSchedTaskDeQueue_touches task).view_eq ?_
  rw [view, osSchedTaskDeQueue_tcb, osSchedTaskDeQueue_home, update_self]
  split
  · rename_i linked
    rw [update_self, view, (sound.placed task).home_of_ready linked.1 linked.2]
    rfl
  · rfl

theorem osAdd2SortLink_touches (startTime waitTicks : Nat) :
    Touches task sched (sched.osAdd2SortLink task startTime waitTicks) :=
  ⟨rfl, fun _ differs => update_of_ne differs _ _, fun _ _ => rfl⟩

theorem osAdd2SortLink_view (startTime waitTicks : Nat) :
    (sched.osAdd2SortLink task startTime waitTicks).view = sched.view := by
  refine (osAdd2SortLink_touches startTime waitTicks).view_eq ?_
  simp [view, osAdd2SortLink, LosTaskCB.view]
  rfl

theorem osDeleteNodeSortLink_touches : Touches task sched (sched.osDeleteNodeSortLink task) :=
  ⟨rfl, fun _ differs => update_of_ne differs _ _, fun _ _ => rfl⟩

theorem osDeleteNodeSortLink_view : (sched.osDeleteNodeSortLink task).view = sched.view := by
  refine osDeleteNodeSortLink_touches.view_eq ?_
  simp [view, osDeleteNodeSortLink, LosTaskCB.view]
  rfl

theorem osDeleteSortLink_touches : Touches task sched (sched.osDeleteSortLink task) := by
  rw [osDeleteSortLink]
  split
  · exact .refl
  · exact osDeleteNodeSortLink_touches

theorem osDeleteSortLink_view : (sched.osDeleteSortLink task).view = sched.view := by
  rw [osDeleteSortLink]
  split
  · rfl
  · exact osDeleteNodeSortLink_view

theorem osDeleteSortLink_status : (sched.osDeleteSortLink task).status = sched.status := by
  rw [osDeleteSortLink]
  split
  · rfl
  · funext one
    by_cases same : one = task <;> simp [status, osDeleteNodeSortLink, same]

theorem osDeleteSortLink_home : (sched.osDeleteSortLink task).home = sched.home := by
  rw [osDeleteSortLink]
  split <;> rfl

section

variable (sound : sched.Sound)
include sound

theorem Sound.add2SortLink (startTime waitTicks : Nat) :
    (sched.osAdd2SortLink task startTime waitTicks).Sound := by
  refine sound.keep (osAdd2SortLink_touches startTime waitTicks) ?_ rfl rfl
  refine (sound.placed task).soften ?_ ?_ ?_ ?_ ?_ ?_ ?_ ?_ ?_ <;> simp [osAdd2SortLink]

theorem Sound.deleteNodeSortLink : (sched.osDeleteNodeSortLink task).Sound := by
  refine sound.keep osDeleteNodeSortLink_touches ?_ rfl rfl
  refine (sound.placed task).soften ?_ ?_ ?_ ?_ ?_ ?_ ?_ ?_ ?_ <;> simp [osDeleteNodeSortLink]

theorem Sound.deleteSortLink : (sched.osDeleteSortLink task).Sound := by
  rw [osDeleteSortLink]
  split
  · exact sound
  · exact sound.deleteNodeSortLink

/-! ### Waiting and waking -/

theorem Sound.pending (pend : (sched.status task).pend = true) :
    ∃ head, sched.home task = some (.wait head) ∧ (sched.status task).ready = false ∧
      (sched.status task).unused = false ∧ task ≠ sched.config.idleTaskID ∧
      task < sched.config.taskMaxNum := by
  have place := (sound.placed task).place
  cases found : sched.home task with
  | none =>
    rw [found] at place
    exact absurd (pend.symm.trans place.2.1) (by simp)
  | some list =>
    rw [found] at place
    cases list with
    | wait head => exact ⟨head, rfl, place.1, place.2.2⟩
    | priQueue _ => exact absurd (pend.symm.trans place.2.1) (by simp)
    | losFreeTask => exact absurd (pend.symm.trans place.2.1) (by simp)
    | taskRecycleList => exact absurd (pend.symm.trans place.2.1) (by simp)

theorem Sound.pend_of_home (linked : sched.home task = some (.wait head)) :
    (sched.status task).pend = true := by
  have place := (sound.placed task).place
  rw [linked] at place
  exact place.2.1

theorem Sound.created_of_home
    (linked : sched.home task = some (.wait head)) : (sched.status task).unused = false := by
  have place := (sound.placed task).place
  rw [linked] at place
  exact place.2.2.1

theorem Sound.unlinked (ready : (sched.status task).ready = false)
    (pend : (sched.status task).pend = false) (unused : (sched.status task).unused = false) :
    sched.home task = none := by
  have place := (sound.placed task).place
  cases found : sched.home task with
  | none => rfl
  | some list =>
    rw [found] at place
    cases list with
    | priQueue _ => exact absurd (ready.symm.trans place.1) (by simp)
    | wait _ => exact absurd (pend.symm.trans place.2.1) (by simp)
    | losFreeTask => exact absurd (unused.symm.trans place.2.2.1) (by simp)
    | taskRecycleList => exact absurd (unused.symm.trans place.2.2.1) (by simp)

theorem Sound.leaveList (touches : Touches task sched next)
    (linked : (sched.status task).pend = true) (home : next.home task = none)
    (bitmap : next.queueBitmap = sched.queueBitmap)
    (ready : (next.status task).ready = (sched.status task).ready)
    (pend : (next.status task).pend = false)
    (unused : (next.status task).unused = (sched.status task).unused)
    (priority : (next.tcb task).priority = (sched.tcb task).priority) : next.Sound := by
  obtain ⟨head, here, asleep, created, other, real⟩ := sound.pending linked
  refine sound.touch touches ?_ bitmap fun priority => ?_
  · rw [home]
    exact ⟨fun set => absurd ((ready.symm.trans set).symm.trans asleep) (by simp),
      fun bound => priority ▸ (sound.placed task).priority bound, fun same => absurd same other,
      fun set => absurd ((unused.symm.trans set).symm.trans created) (by simp),
      fun set => absurd ((ready.symm.trans set).symm.trans asleep) (by simp), pend,
      iff_of_false (fun set => absurd ((unused.symm.trans set).symm.trans created) (by simp))
        (Nat.not_le.mpr real)⟩
  · simp [home, here]

end

theorem unpend_touches : Touches task sched (sched.unpend task) :=
  losListDelete_touches.trans (modifyStatus_touches _)

@[simp]
theorem unpend_home : (sched.unpend task).home = update sched.home task none := rfl

theorem unpend_status : (sched.unpend task).status =
    update sched.status task { sched.status task with pend := false } :=
  modifyStatus_status _ _ _

theorem unpend_view : (sched.unpend task).view =
    update sched.view task (sched.view task).unwait := by
  rw [unpend_touches.view]
  simp [view, unpend, LosTaskCB.view, TaskView.unwait, status]

theorem Sound.unpend (sound : sched.Sound) (pend : (sched.status task).pend = true) :
    (sched.unpend task).Sound := by
  refine sound.leaveList unpend_touches pend ?_ rfl ?_ ?_ ?_ ?_ <;> simp [Sched.unpend]

theorem wakeTimer_touches : Touches task sched (sched.wakeTimer task) := by
  rw [wakeTimer]
  split
  · exact osDeleteSortLink_touches.trans (modifyStatus_touches _)
  · exact .refl

theorem wakeTimer_status : ((sched.wakeTimer task).status task) =
    { sched.status task with pendTime := false } := by
  rw [wakeTimer]
  split
  · rw [modifyStatus_status, update_self, osDeleteSortLink_status]
  · rename_i clear
    rw [Bool.not_eq_true] at clear
    rw [← clear]

theorem wakeTimer_home : (sched.wakeTimer task).home = sched.home := by
  rw [wakeTimer]
  split
  · rw [modifyStatus_home, osDeleteSortLink_home]
  · rfl

theorem modifyStatus_view {change : TaskStatus → TaskStatus}
    (timeout : (change (sched.status task)).timeout = (sched.status task).timeout)
    (exit : (change (sched.status task)).exit = (sched.status task).exit)
    (unused : (change (sched.status task)).unused = (sched.status task).unused) :
    (sched.modifyStatus task change).view = sched.view := by
  refine (modifyStatus_touches change).view_eq ?_
  simp only [view, modifyStatus_tcb, update_self, LosTaskCB.view, timeout, exit, unused]
  rfl

section

variable (sound : sched.Sound) {change : TaskStatus → TaskStatus}
  (ready : (change (sched.status task)).ready = (sched.status task).ready)
  (pend : (change (sched.status task)).pend = (sched.status task).pend)
  (unused : (change (sched.status task)).unused = (sched.status task).unused)
  (joinable : (change (sched.status task)).joinable = (sched.status task).joinable)
include sound ready pend unused joinable

theorem Sound.clearBits
    (suspend : (change (sched.status task)).suspend = true → (sched.status task).suspend = true)
    (delay : (change (sched.status task)).delay = true → (sched.status task).delay = true)
    (pendTime : (change (sched.status task)).pendTime = true → (sched.status task).pendTime = true)
    (exit : (change (sched.status task)).exit = true → (sched.status task).exit = true) :
    (sched.modifyStatus task change).Sound :=
  sound.modify _ ((sound.placed task).soften ready pend unused joinable rfl suspend delay pendTime
    exit)

theorem Sound.setBits
    (asleep : (sched.status task).ready = false) (created : (sched.status task).unused = false)
    (other : task ≠ sched.config.idleTaskID) : (sched.modifyStatus task change).Sound :=
  sound.modify _ ((sound.placed task).harden ready pend unused joinable rfl asleep created other)

end

theorem wakeTimer_view : (sched.wakeTimer task).view = sched.view := by
  rw [wakeTimer]
  split
  · exact (modifyStatus_view rfl rfl rfl).trans osDeleteSortLink_view
  · rfl

theorem Sound.wakeTimer (sound : sched.Sound) : (sched.wakeTimer task).Sound := by
  rw [Sched.wakeTimer]
  split
  · exact sound.deleteSortLink.clearBits rfl rfl rfl rfl id id nofun id
  · exact sound

theorem wakeEnQueue_touches : Touches task sched (sched.wakeEnQueue task) := by
  rw [wakeEnQueue]
  split
  · exact osSchedTaskEnQueue_touches sched task
  · exact .refl

theorem wakeEnQueue_view : (sched.wakeEnQueue task).view = sched.view := by
  rw [wakeEnQueue]
  split
  · exact osSchedTaskEnQueue_view
  · rfl

theorem Sound.wakeEnQueue (sound : sched.Sound) (free : sched.home task = none)
    (real : task < sched.config.taskMaxNum) : (sched.wakeEnQueue task).Sound := by
  rw [Sched.wakeEnQueue]
  split
  · exact sound.enQueue free real
  · exact sound

theorem osSchedTaskWake_touches : Touches task sched (sched.osSchedTaskWake task) :=
  (unpend_touches.trans wakeTimer_touches).trans wakeEnQueue_touches

theorem osSchedTaskWake_view : (sched.osSchedTaskWake task).view =
    update sched.view task (sched.view task).unwait :=
  (wakeEnQueue_view.trans wakeTimer_view).trans unpend_view

theorem Sound.wake (sound : sched.Sound) (pend : (sched.status task).pend = true) :
    (sched.osSchedTaskWake task).Sound := by
  obtain ⟨head, here, asleep, created, other, real⟩ := sound.pending pend
  refine (sound.unpend pend).wakeTimer.wakeEnQueue ?_ ?_
  · rw [wakeTimer_home, unpend_home, update_self]
  · rw [(unpend_touches.trans wakeTimer_touches).config]
    exact real

/-! ### Leaving for good -/

theorem Sound.unwait_eq (sound : sched.Sound) (pend : (sched.status task).pend = false) :
    (sched.view task).unwait = sched.view task := by
  have none : (sched.view task).wait = none := not_not.mp (mt sound.pend_iff.mpr (by simp [pend]))
  rw [TaskView.unwait, ← none]

theorem Sound.pend_of_ready (sound : sched.Sound) (ready : (sched.status task).ready = true) :
    (sched.status task).pend = false := by
  by_contra pend
  rw [Bool.not_eq_false] at pend
  obtain ⟨-, -, asleep, -⟩ := sound.pending pend
  exact absurd (asleep.symm.trans ready) (by simp)

theorem exitLists_touches : Touches task sched (sched.exitLists task) := by
  rw [exitLists]
  split
  · exact osSchedTaskDeQueue_touches sched task
  · split
    · exact unpend_touches
    · exact .refl

theorem Sound.exitLists_view (sound : sched.Sound) : (sched.exitLists task).view =
    update sched.view task (sched.view task).unwait := by
  rw [exitLists]
  split
  · rename_i ready
    rw [sound.deQueue_view, sound.unwait_eq (sound.pend_of_ready ready), Function.update_eq_self]
  split
  · exact unpend_view
  · rename_i pend
    rw [sound.unwait_eq (Bool.not_eq_true _ ▸ pend), Function.update_eq_self]

theorem Sound.exitLists (sound : sched.Sound) : (sched.exitLists task).Sound := by
  rw [Sched.exitLists]
  split
  · exact sound.deQueue
  · split
    · exact sound.unpend ‹_›
    · exact sound

theorem osSchedTaskDeQueue_status : (sched.osSchedTaskDeQueue task).status =
    update sched.status task { sched.status task with ready := false } := by
  funext one
  by_cases same : one = task <;> simp [status, osSchedTaskDeQueue_tcb, same]

theorem Sound.exitLists_status (sound : sched.Sound) : (sched.exitLists task).status task =
    { sched.status task with ready := false, pend := false } := by
  have awake := @Sound.pend_of_ready sched task sound
  rw [Sched.exitLists]
  split
  · rename_i ready
    rw [osSchedTaskDeQueue_status, update_self, ← awake ready]
  rename_i ready
  rw [Bool.not_eq_true] at ready
  split
  · rw [unpend_status, update_self, ← ready]
  · cases found : sched.status task
    simp_all

theorem exitTimer_touches : Touches task sched (sched.exitTimer task) := by
  rw [exitTimer]
  split
  · exact osDeleteSortLink_touches.trans (modifyStatus_touches _)
  · exact .refl

theorem exitTimer_view : (sched.exitTimer task).view = sched.view := by
  rw [exitTimer]
  split
  · exact (modifyStatus_view rfl rfl rfl).trans osDeleteSortLink_view
  · rfl

theorem Sound.exitTimer (sound : sched.Sound) : (sched.exitTimer task).Sound := by
  rw [Sched.exitTimer]
  split
  · exact sound.deleteSortLink.clearBits rfl rfl rfl rfl id nofun nofun id
  · exact sound

theorem exitTimer_status : (sched.exitTimer task).status task =
    { sched.status task with delay := false, pendTime := false } := by
  rw [exitTimer]
  split
  · rw [modifyStatus_status, update_self, osDeleteSortLink_status]
  · cases found : sched.status task
    simp_all

theorem osSchedTaskExit_touches : Touches task sched (sched.osSchedTaskExit task) :=
  (exitLists_touches.trans exitTimer_touches).trans (modifyStatus_touches _)

theorem Sound.exit_status (sound : sched.Sound) : (sched.osSchedTaskExit task).status task =
    { sched.status task with
      ready := false, pend := false, delay := false, pendTime := false, exit := true } := by
  rw [osSchedTaskExit, modifyStatus_status, update_self, exitTimer_status, sound.exitLists_status]

theorem Sound.exit_view (sound : sched.Sound) : (sched.osSchedTaskExit task).view =
    update sched.view task { (sched.view task).unwait with exit := true } := by
  have before : ((sched.exitLists task).exitTimer task).view =
      update sched.view task (sched.view task).unwait :=
    exitTimer_view.trans sound.exitLists_view
  rw [osSchedTaskExit, (modifyStatus_touches _).view, before]
  have now : ((sched.exitLists task).exitTimer task).view task = (sched.view task).unwait := by
    rw [before, update_self]
  rw [← now, Function.update_idem, view, modifyStatus_tcb, update_self]
  rfl

theorem Sound.exit (sound : sched.Sound) (created : (sched.status task).unused = false)
    (other : task ≠ sched.config.idleTaskID) : (sched.osSchedTaskExit task).Sound := by
  have status := @Sound.exitLists_status sched task sound
  refine sound.exitLists.exitTimer.setBits rfl rfl rfl rfl ?_ ?_ ?_
  · rw [exitTimer_status, status]
  · rw [exitTimer_status, status]
    exact created
  · rw [(exitLists_touches.trans exitTimer_touches).config]
    exact other

/-! ### The timer -/

theorem timeOut_touches : Touches task sched (sched.timeOut task) := by
  rw [timeOut]
  split
  · exact (modifyStatus_touches _).trans losListDelete_touches
  · exact modifyStatus_touches _

theorem Sound.timeOut_view (sound : sched.Sound) : (sched.timeOut task).view =
    update sched.view task (sched.view task).timedOut := by
  rw [timeOut_touches.view]
  rw [Sched.timeOut, TaskView.timedOut]
  split
  · rename_i pend
    rw [if_neg (sound.pend_iff.mp pend), view, losListDelete_home, update_self,
      losListDelete_tcb, modifyStatus_tcb, update_self]
    rfl
  · rename_i pend
    rw [if_pos (not_not.mp (mt sound.pend_iff.mpr pend)), view, modifyStatus_tcb, update_self]
    rfl

theorem Sound.timeOut (sound : sched.Sound) : (sched.timeOut task).Sound := by
  rw [Sched.timeOut]
  split
  · rename_i pend
    refine sound.leaveList ((modifyStatus_touches _).trans losListDelete_touches) pend ?_ rfl ?_ ?_
      ?_ ?_ <;> simp
  · rename_i pend
    refine sound.clearBits rfl ?_ rfl rfl id nofun nofun id
    exact (Bool.not_eq_true _ ▸ pend).symm

theorem timeOut_status : ((sched.timeOut task).status task).ready = (sched.status task).ready ∧
      ((sched.timeOut task).status task).pend = false ∧
      ((sched.timeOut task).status task).unused = (sched.status task).unused := by
  rw [Sched.timeOut]
  split <;> simp

theorem osSchedWakePendTimeTask_touches :
    Touches task sched (sched.osSchedWakePendTimeTask task) := by
  rw [osSchedWakePendTimeTask]
  split
  · split
    · exact timeOut_touches.trans (osSchedTaskEnQueue_touches _ task)
    · exact timeOut_touches
  · exact .refl

theorem osSchedWakePendTimeTask_eq (pend : (sched.status task).pend = false)
    (delay : (sched.status task).delay = false) : sched.osSchedWakePendTimeTask task = sched := by
  rw [osSchedWakePendTimeTask, pend, delay]
  rfl

theorem Sound.wakePendTimeTask_view (sound : sched.Sound) :
    (sched.osSchedWakePendTimeTask task).view =
      update sched.view task (sched.view task).timedOut := by
  rw [osSchedWakePendTimeTask]
  split
  · split
    · rw [osSchedTaskEnQueue_view, sound.timeOut_view]
    · exact sound.timeOut_view
  rename_i idle
  rw [Bool.or_eq_true, not_or] at idle
  rw [TaskView.timedOut, if_pos (not_not.mp (mt sound.pend_iff.mpr idle.1)),
    Function.update_eq_self]

theorem Sound.waiting (sound : sched.Sound)
    (waits : (sched.status task).pend = true ∨ (sched.status task).delay = true) :
    (sched.status task).ready = false ∧ (sched.status task).unused = false := by
  rcases waits with pend | delay
  · obtain ⟨-, -, asleep, created, -⟩ := sound.pending pend
    exact ⟨asleep, created⟩
  have placed := sound.placed task
  refine ⟨?_, ?_⟩
  · by_contra ready
    rw [Bool.not_eq_false] at ready
    exact absurd ((placed.ready ready).2.1.symm.trans delay) (by simp)
  · by_contra unused
    rw [Bool.not_eq_false] at unused
    exact absurd ((placed.unused unused).symm.trans delay) (by simp)

theorem Sound.real (sound : sched.Sound) (created : (sched.status task).unused = false) :
    task < sched.config.taskMaxNum := by
  have place := (sound.placed task).place
  cases found : sched.home task with
  | none =>
    rw [found] at place
    exact Nat.not_le.mp (mt place.2.2.mpr (Bool.eq_false_iff.mp created))
  | some list =>
    rw [found] at place
    cases list with
    | priQueue _ => exact place.2.2.2.2.1
    | wait _ => exact place.2.2.2.2
    | losFreeTask => exact place.2.2.2
    | taskRecycleList => exact place.2.2.2.1

theorem Sound.wakePendTimeTask (sound : sched.Sound) :
    (sched.osSchedWakePendTimeTask task).Sound := by
  rw [osSchedWakePendTimeTask]
  split
  · rename_i waits
    obtain ⟨asleep, created⟩ := sound.waiting (Bool.or_eq_true _ _ ▸ waits)
    split
    · have status := @timeOut_status sched task
      refine sound.timeOut.enQueue (sound.timeOut.unlinked ?_ status.2.1 ?_) ?_
      · rw [status.1, asleep]
      · rw [status.2.2, created]
      · rw [timeOut_touches.config]
        exact sound.real created
    · exact sound.timeOut
  · exact sound

theorem Sound.scan (nodes : List Nat) (sound : sched.Sound) : (scanTimerList nodes sched).Sound ∧
      ∀ task, (scanTimerList nodes sched).view task = sched.view task ∨
        (scanTimerList nodes sched).view task = (sched.view task).timedOut := by
  induction nodes generalizing sched with
  | nil => exact ⟨sound, fun _ => .inl rfl⟩
  | cons first rest hypothesis =>
    rw [scanTimerList]
    split
    · exact ⟨sound, fun _ => .inl rfl⟩
    split
    · have deleted := @Sound.deleteNodeSortLink sched first sound
      have woken := @Sound.wakePendTimeTask _ first deleted
      obtain ⟨sound', views⟩ := hypothesis woken
      refine ⟨sound', fun task => ?_⟩
      have now := views task
      rw [deleted.wakePendTimeTask_view, osDeleteNodeSortLink_view] at now
      by_cases same : task = first
      · subst same
        rw [update_self] at now
        refine .inr (now.elim id fun twice => twice.trans ?_)
        simp only [TaskView.timedOut]
        split <;> simp_all
      · rwa [update_of_ne same] at now
    · exact ⟨sound, fun _ => .inl rfl⟩

theorem scanTimerList_toGlobals (nodes : List Nat) :
    (scanTimerList nodes sched).toGlobals = sched.toGlobals := by
  induction nodes generalizing sched with
  | nil => rfl
  | cons first rest hypothesis =>
    rw [scanTimerList]
    split
    · rfl
    split
    · rw [hypothesis]
      exact (osDeleteNodeSortLink_touches.trans osSchedWakePendTimeTask_touches).globals
    · rfl

theorem scanTimerList_status (nodes : List Nat) (pend : (sched.status task).pend = false)
    (delay : (sched.status task).delay = false) :
    (scanTimerList nodes sched).status task = sched.status task := by
  induction nodes generalizing sched with
  | nil => rfl
  | cons first rest hypothesis =>
    rw [scanTimerList]
    split
    · rfl
    split
    · have deleted : (sched.osDeleteNodeSortLink first).status task = sched.status task := by
        by_cases same : task = first <;> simp [status, osDeleteNodeSortLink, same]
      have woken : ((sched.osDeleteNodeSortLink first).osSchedWakePendTimeTask first).status
          task = sched.status task := by
        by_cases same : task = first
        · subst same
          rw [osSchedWakePendTimeTask_eq (deleted ▸ pend) (deleted ▸ delay), deleted]
        · rw [← deleted, status, osSchedWakePendTimeTask_touches.tcb task same]
          rfl
      rw [hypothesis (woken ▸ pend) (woken ▸ delay), woken]
    · rfl

theorem osTimeSliceUpdate_touches : Touches task sched (sched.osTimeSliceUpdate task) :=
  ⟨rfl, fun _ differs => update_of_ne differs _ _, fun _ _ => rfl⟩

theorem osTimeSliceUpdate_status : (sched.osTimeSliceUpdate task).status = sched.status := by
  funext one
  by_cases same : one = task <;> simp [status, osTimeSliceUpdate, losAssert, same]

theorem osTimeSliceUpdate_view : (sched.osTimeSliceUpdate task).view = sched.view := by
  refine osTimeSliceUpdate_touches.view_eq ?_
  rw [view, osTimeSliceUpdate, modify_tcb, update_self]
  rfl

theorem Sound.timeSliceUpdate (sound : sched.Sound) : (sched.osTimeSliceUpdate task).Sound := by
  refine sound.keep osTimeSliceUpdate_touches ?_ rfl rfl
  refine (sound.placed task).soften ?_ ?_ ?_ ?_ ?_ ?_ ?_ ?_ ?_ <;>
    simp [osTimeSliceUpdate, losAssert]

theorem Sound.globals (sound : sched.Sound) (globals : Globals)
    (config : globals.config = sched.config) : { sched with toGlobals := globals }.Sound where
  placed one := by
    rw [config]
    exact sound.placed one
  marked := sound.marked
  idle := by
    rw [config]
    exact sound.idle

/-! ### Freezing, suspending, changing the priority -/

theorem osSchedFreezeTask_touches : Touches task sched (sched.osSchedFreezeTask task) :=
  (osDeleteSortLink_touches.trans (modify_touches _)).trans (modifyStatus_touches _)

theorem osSchedFreezeTask_status : (sched.osSchedFreezeTask task).status task =
    { sched.status task with freeze := true } := by
  rw [osSchedFreezeTask, modifyStatus_status]
  simp only [status, modify_tcb, update_self]
  rw [← status, osDeleteSortLink_status]
  rfl

theorem osSchedFreezeTask_view : (sched.osSchedFreezeTask task).view = sched.view := by
  rw [osSchedFreezeTask, modifyStatus_view rfl rfl rfl, (modify_touches _).view_eq]
  · exact osDeleteSortLink_view
  · rw [view, modify_tcb, update_self]
    rfl

theorem Sound.freeze (sound : sched.Sound) : (sched.osSchedFreezeTask task).Sound := by
  refine Sound.clearBits (sound.deleteSortLink.modify _ ?_) rfl rfl rfl rfl id id id id
  exact ((@Sound.deleteSortLink sched task sound).placed task).soften rfl rfl rfl rfl rfl id id id id

theorem stopWaiting_touches : Touches task sched (sched.stopWaiting task) := by
  rw [stopWaiting]
  split
  · exact losListDelete_touches.trans (modify_touches _)
  · exact modify_touches _

theorem Sound.stopWaiting_view (sound : sched.Sound) : (sched.stopWaiting task).view =
    update sched.view task (sched.view task).unwait := by
  rw [stopWaiting_touches.view]
  rw [Sched.stopWaiting]
  split
  · rw [view, modify_tcb, update_self, modify_home, losListDelete_home, update_self]
    rfl
  · rename_i pend
    rw [sound.unwait_eq (Bool.not_eq_true _ ▸ pend), view, modify_tcb, update_self]
    rfl

theorem Sound.stopWaiting (sound : sched.Sound) : (sched.stopWaiting task).Sound := by
  rw [Sched.stopWaiting]
  split
  · rename_i pend
    refine sound.leaveList (losListDelete_touches.trans (modify_touches _)) pend ?_ rfl ?_ ?_
      ?_ ?_ <;> simp [status]
  rename_i pend
  refine sound.modify _ ((sound.placed task).soften rfl ?_ rfl rfl rfl id
    (fun delay => Bool.noConfusion delay) (fun pendTime => Bool.noConfusion pendTime) id)
  exact (Bool.not_eq_true _ ▸ pend).symm

/-- Whether thawing a task ends its wait: it is frozen and its time has passed. -/
def expired (sched : Sched) (task : Nat) : Bool :=
  (sched.status task).freeze &&
    decide ((sched.tcb task).responseTime.getD osSortLinkInvalidTime ≤ sched.cycle)

theorem osSchedUnfreezeTask_touches : Touches task sched (sched.osSchedUnfreezeTask task) := by
  simp only [osSchedUnfreezeTask]
  split
  · exact (modifyStatus_touches _).trans (osAdd2SortLink_touches _ _)
  · exact (modifyStatus_touches _).trans stopWaiting_touches

theorem Sound.unfreeze (sound : sched.Sound) : (sched.osSchedUnfreezeTask task).Sound := by
  have thawed : (sched.modifyStatus task fun status => { status with freeze := false }).Sound :=
    sound.clearBits rfl rfl rfl rfl id id id id
  simp only [osSchedUnfreezeTask]
  split
  · exact thawed.add2SortLink _ _
  · exact thawed.stopWaiting

theorem osSchedUnfreezeTask_kept :
    ((sched.osSchedUnfreezeTask task).status task).suspend = (sched.status task).suspend ∧
      ((sched.osSchedUnfreezeTask task).status task).ready = (sched.status task).ready ∧
      ((sched.osSchedUnfreezeTask task).status task).unused = (sched.status task).unused := by
  simp only [osSchedUnfreezeTask]
  split
  · simp [status, osAdd2SortLink]
  · rw [stopWaiting]
    split <;> simp [status]

theorem Sound.unfreeze_view (sound : sched.Sound) (frozen : (sched.status task).freeze = true) :
    (sched.osSchedUnfreezeTask task).view =
      if sched.expired task then update sched.view task (sched.view task).unwait
      else sched.view := by
  have thawed : (sched.modifyStatus task fun status => { status with freeze := false }).Sound :=
    sound.clearBits rfl rfl rfl rfl id id id id
  have view : (sched.modifyStatus task fun status => { status with freeze := false }).view =
      sched.view := modifyStatus_view rfl rfl rfl
  simp only [osSchedUnfreezeTask, expired, frozen, Bool.true_and, decide_eq_true_eq, gt_iff_lt,
    ← Nat.not_lt]
  split
  · rw [osAdd2SortLink_view, view]
  · rw [thawed.stopWaiting_view, view]

theorem thaw_touches : Touches task sched (sched.thaw task) := by
  refine Touches.trans ?_ (modifyStatus_touches _)
  split
  · exact osSchedUnfreezeTask_touches
  · exact .refl

theorem Sound.thaw (sound : sched.Sound) : (sched.thaw task).Sound := by
  rw [Sched.thaw]
  split
  · exact sound.unfreeze.clearBits rfl rfl rfl rfl nofun id id id
  · exact sound.clearBits rfl rfl rfl rfl nofun id id id

theorem Sound.thaw_view (sound : sched.Sound) : (sched.thaw task).view =
    if sched.expired task then update sched.view task (sched.view task).unwait else sched.view := by
  rw [Sched.thaw, modifyStatus_view rfl rfl rfl]
  split
  · rename_i frozen
    exact sound.unfreeze_view frozen
  · rename_i melted
    simp [expired, melted]

theorem thaw_kept : ((sched.thaw task).status task).ready = (sched.status task).ready ∧
    ((sched.thaw task).status task).unused = (sched.status task).unused := by
  rw [thaw, modifyStatus_status, update_self]
  split
  · exact osSchedUnfreezeTask_kept.2
  · exact ⟨rfl, rfl⟩

theorem osSchedResume_touches : Touches task sched (sched.osSchedResume task).1 := by
  rw [osSchedResume]
  split
  · exact thaw_touches.trans (osSchedTaskEnQueue_touches _ task)
  · exact thaw_touches

theorem Sound.resume_view (sound : sched.Sound) : (sched.osSchedResume task).1.view =
    if sched.expired task then update sched.view task (sched.view task).unwait else sched.view := by
  rw [osSchedResume]
  split
  · rw [osSchedTaskEnQueue_view, sound.thaw_view]
  · exact sound.thaw_view

theorem Sound.resume (sound : sched.Sound) (suspend : (sched.status task).suspend = true)
    (created : (sched.status task).unused = false) : (sched.osSchedResume task).1.Sound := by
  have asleep : (sched.status task).ready = false := by
    by_contra ready
    rw [Bool.not_eq_false] at ready
    exact absurd (((sound.placed task).ready ready).1.symm.trans suspend) (by simp)
  rw [osSchedResume]
  split
  · rename_i free
    rw [Bool.not_eq_true', Bool.or_eq_false_iff] at free
    refine sound.thaw.enQueue (sound.thaw.unlinked ?_ free.2 ?_) ?_
    · rw [thaw_kept.1, asleep]
    · rw [thaw_kept.2, created]
    · rw [thaw_touches.config]
      exact sound.real created
  · exact sound.thaw

theorem suspendTimer_touches : Touches task sched (sched.suspendTimer task) := by
  rw [suspendTimer]
  split
  · exact osSchedFreezeTask_touches
  · exact .refl

theorem suspendTimer_view : (sched.suspendTimer task).view = sched.view := by
  rw [suspendTimer]
  split
  · exact osSchedFreezeTask_view
  · rfl

theorem Sound.suspendTimer (sound : sched.Sound) : (sched.suspendTimer task).Sound := by
  rw [Sched.suspendTimer]
  split
  · exact sound.freeze
  · exact sound

theorem suspendTimer_kept :
    ((sched.suspendTimer task).status task).ready = (sched.status task).ready ∧
      ((sched.suspendTimer task).status task).unused = (sched.status task).unused := by
  rw [suspendTimer]
  split
  · rw [osSchedFreezeTask_status]
    exact ⟨rfl, rfl⟩
  · exact ⟨rfl, rfl⟩

theorem osSchedSuspend_touches : Touches task sched (sched.osSchedSuspend task) :=
  ((osSchedTaskDeQueue_touches sched task).trans suspendTimer_touches).trans
    (modifyStatus_touches _)

theorem Sound.suspend_view (sound : sched.Sound) :
    (sched.osSchedSuspend task).view = sched.view := by
  rw [osSchedSuspend, modifyStatus_view rfl rfl rfl, suspendTimer_view, sound.deQueue_view]

theorem Sound.suspend (sound : sched.Sound) (created : (sched.status task).unused = false)
    (other : task ≠ sched.config.idleTaskID) : (sched.osSchedSuspend task).Sound := by
  refine sound.deQueue.suspendTimer.setBits rfl rfl rfl rfl ?_ ?_ ?_
  · rw [suspendTimer_kept.1, osSchedTaskDeQueue_status, update_self]
  · rw [suspendTimer_kept.2, osSchedTaskDeQueue_status, update_self]
    exact created
  · rw [((osSchedTaskDeQueue_touches sched task).trans suspendTimer_touches).config]
    exact other

theorem osSchedModifyTaskSchedParam_touches (priority : Nat) :
    Touches task sched (sched.osSchedModifyTaskSchedParam task priority).1 := by
  simp only [osSchedModifyTaskSchedParam]
  split
  · exact ((osSchedTaskDeQueue_touches sched task).trans (modify_touches _)).trans
      (osSchedTaskEnQueue_touches _ task)
  · exact modify_touches fun taskCB => { taskCB with priority := priority }

theorem Sound.modifyTaskSchedParam_view (sound : sched.Sound) (priority : Nat) :
    (sched.osSchedModifyTaskSchedParam task priority).1.view =
      update sched.view task { sched.view task with priority := priority } := by
  rw [(osSchedModifyTaskSchedParam_touches priority).view]
  simp only [osSchedModifyTaskSchedParam]
  split
  · have dequeued := @Sound.deQueue_view sched task sound
    rw [osSchedTaskEnQueue_view, ← dequeued, view, modify_tcb, update_self]
    rfl
  · rw [view, modify_tcb, update_self]
    rfl

theorem Sound.changePriority (sound : sched.Sound) {priority : Nat}
    (low : priority ≤ osTaskPriorityLowest) (asleep : (sched.status task).ready = false) :
    (sched.modify task fun taskCB => { taskCB with priority := priority }).Sound := by
  have placed := sound.placed task
  refine sound.modify _ ⟨placed.ready, fun _ => low, placed.idle, placed.unused, ?_⟩
  have place := placed.place
  cases found : sched.home task with
  | none =>
    rw [found] at place
    exact place
  | some list =>
    rw [found] at place
    cases list with
    | priQueue _ => exact absurd (place.1.symm.trans asleep) (by simp)
    | wait _ => exact place
    | losFreeTask => exact place
    | taskRecycleList => exact place

theorem Sound.dequeued (sound : sched.Sound) (ready : (sched.status task).ready = true) :
    (sched.osSchedTaskDeQueue task).home task = none ∧ task < sched.config.taskMaxNum := by
  rw [osSchedTaskDeQueue_home]
  by_cases idle : task = sched.config.idleTaskID
  · rw [if_neg fun both => both.2 idle]
    have place := (sound.placed task).place
    refine ⟨?_, idle ▸ sound.idle⟩
    cases found : sched.home task with
    | none => rfl
    | some list =>
      rw [found] at place
      cases list with
      | priQueue _ => exact absurd idle place.2.2.2.1
      | wait _ => exact absurd idle place.2.2.2.1
      | losFreeTask => exact absurd (place.1.symm.trans ready) (by simp)
      | taskRecycleList => exact absurd (place.1.symm.trans ready) (by simp)
  · rw [if_pos ⟨ready, idle⟩, update_self]
    have place := (sound.placed task).place
    rw [(sound.placed task).home_of_ready ready idle] at place
    exact ⟨rfl, place.2.2.2.2.1⟩

theorem Sound.modifyTaskSchedParam (sound : sched.Sound) {priority : Nat}
    (low : priority ≤ osTaskPriorityLowest) :
    (sched.osSchedModifyTaskSchedParam task priority).1.Sound := by
  simp only [osSchedModifyTaskSchedParam]
  split
  · rename_i ready
    obtain ⟨free, real⟩ := sound.dequeued ready
    refine Sound.enQueue (sound.deQueue.changePriority low ?_) free ?_
    · rw [osSchedTaskDeQueue_status, update_self]
    · rw [modify_toGlobals, (osSchedTaskDeQueue_touches sched task).config]
      exact real
  · rename_i asleep
    exact sound.changePriority low (Bool.not_eq_true _ ▸ asleep)

/-! ### Running and joinable tasks -/

def flags (sched : Sched) (task : Nat) : Bool × Bool :=
  (sched.status task).flags

theorem flags_congr (touches : Touches task sched next)
    (same : (next.status task).flags = (sched.status task).flags) : next.flags = sched.flags := by
  funext one
  by_cases its : one = task
  · subst its
    exact same
  · rw [flags, status, touches.tcb one its]
    rfl

theorem osSchedTaskEnQueue_flags : (sched.osSchedTaskEnQueue task).flags = sched.flags := by
  refine flags_congr (osSchedTaskEnQueue_touches sched task) ?_
  obtain ⟨slice, tcb⟩ := sched.osSchedTaskEnQueue_tcb task
  rw [status, tcb, update_self]
  rfl

theorem osSchedTaskDeQueue_flags : (sched.osSchedTaskDeQueue task).flags = sched.flags := by
  refine flags_congr (osSchedTaskDeQueue_touches sched task) ?_
  rw [osSchedTaskDeQueue_status, update_self]
  rfl

theorem osSchedTaskWake_flags : (sched.osSchedTaskWake task).flags = sched.flags := by
  have timed : ((sched.unpend task).wakeTimer task).flags = sched.flags := by
    refine flags_congr (unpend_touches.trans wakeTimer_touches) ?_
    rw [wakeTimer_status, unpend_status, update_self]
    rfl
  rw [osSchedTaskWake, wakeEnQueue]
  split
  · rw [osSchedTaskEnQueue_flags, timed]
  · exact timed

theorem osSchedUnfreezeTask_flags : (sched.osSchedUnfreezeTask task).flags = sched.flags := by
  refine flags_congr osSchedUnfreezeTask_touches ?_
  simp only [osSchedUnfreezeTask]
  split
  · simp [status, osAdd2SortLink, TaskStatus.flags]
  · rw [stopWaiting]
    split <;> simp [status, TaskStatus.flags]

theorem osSchedResume_flags : (sched.osSchedResume task).1.flags = sched.flags := by
  have thawed : (sched.thaw task).flags = sched.flags := by
    refine flags_congr thaw_touches ?_
    rw [thaw, modifyStatus_status, update_self]
    split
    · exact congrFun osSchedUnfreezeTask_flags task
    · rfl
  rw [osSchedResume]
  split
  · rw [osSchedTaskEnQueue_flags, thawed]
  · exact thawed

theorem osSchedSuspend_flags : (sched.osSchedSuspend task).flags = sched.flags := by
  refine flags_congr osSchedSuspend_touches ?_
  rw [osSchedSuspend, modifyStatus_status, update_self, suspendTimer]
  split
  · rw [osSchedFreezeTask_status]
    exact congrFun osSchedTaskDeQueue_flags task
  · exact congrFun osSchedTaskDeQueue_flags task

theorem osSchedModifyTaskSchedParam_flags (priority : Nat) :
    (sched.osSchedModifyTaskSchedParam task priority).1.flags = sched.flags := by
  simp only [osSchedModifyTaskSchedParam]
  split
  · rw [osSchedTaskEnQueue_flags]
    refine Eq.trans (flags_congr (modify_touches _) ?_) osSchedTaskDeQueue_flags
    rw [status, modify_tcb, update_self]
    rfl
  · refine flags_congr (modify_touches fun taskCB => { taskCB with priority := priority }) ?_
    rw [status, modify_tcb, update_self]
    rfl

theorem osSchedWakePendTimeTask_flags :
    (sched.osSchedWakePendTimeTask task).flags = sched.flags := by
  have ended : (sched.timeOut task).flags = sched.flags := by
    refine flags_congr timeOut_touches ?_
    rw [timeOut]
    split <;> simp [TaskStatus.flags]
  rw [osSchedWakePendTimeTask]
  split
  · split
    · rw [osSchedTaskEnQueue_flags, ended]
    · exact ended
  · rfl

theorem scanTimerList_flags (nodes : List Nat) :
    (scanTimerList nodes sched).flags = sched.flags := by
  induction nodes generalizing sched with
  | nil => rfl
  | cons first rest hypothesis =>
    rw [scanTimerList]
    split
    · rfl
    split
    · rw [hypothesis, osSchedWakePendTimeTask_flags]
      refine flags_congr osDeleteNodeSortLink_touches ?_
      simp [status, osDeleteNodeSortLink]
    · rfl

end Sched

end TowerSafe.Kernel
