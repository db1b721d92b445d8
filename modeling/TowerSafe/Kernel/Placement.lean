/-
This file states where a task is linked by its status bits, and proves that every function of
the scheduler keeps that. A task is ready exactly when it is in the queue of its priority, it
is pending exactly when it is in a wait list, and it is unused exactly when it is in the list of
free or of finished tasks; the bitmap marks the queues that are not empty.
-/

import Mathlib.Tactic.Tauto
import TowerSafe.Kernel.TaskCalls

namespace TowerSafe.Kernel

open Library
open Function (update update_self update_of_ne)

namespace Sched

variable (sched : Sched) (task other : Nat)

/-! ### What the elementary updates leave alone -/

@[simp]
theorem modify_tcb (change : LosTaskCB → LosTaskCB) :
    (sched.modify task change).tcb = update sched.tcb task (change (sched.tcb task)) :=
  rfl

@[simp]
theorem modifyStatus_tcb (change : TaskStatus → TaskStatus) : (sched.modifyStatus task change).tcb =
      update sched.tcb task { sched.tcb task with taskStatus := change (sched.status task) } :=
  rfl

@[simp]
theorem modify_home (change : LosTaskCB → LosTaskCB) :
    (sched.modify task change).home = sched.home :=
  rfl

@[simp]
theorem modifyStatus_home (change : TaskStatus → TaskStatus) :
    (sched.modifyStatus task change).home = sched.home :=
  rfl

@[simp]
theorem modify_toGlobals (change : LosTaskCB → LosTaskCB) :
    (sched.modify task change).toGlobals = sched.toGlobals :=
  rfl

@[simp]
theorem modifyStatus_toGlobals (change : TaskStatus → TaskStatus) :
    (sched.modifyStatus task change).toGlobals = sched.toGlobals :=
  rfl

@[simp]
theorem modifyStatus_status (change : TaskStatus → TaskStatus) :
    (sched.modifyStatus task change).status =
      update sched.status task (change (sched.status task)) := by
  funext one
  by_cases same : one = task <;> simp [status, same]

@[simp]
theorem losAssert_home (judge : Bool) : (sched.losAssert judge).home = sched.home := rfl

@[simp]
theorem losListAdd_home (head : ListHead) : (sched.losListAdd task head).home =
      if sched.home task = none then update sched.home task (some head) else sched.home :=
  sched.chains.pushFront_home

@[simp]
theorem losListTailInsert_home (head : ListHead) : (sched.losListTailInsert task head).home =
      if sched.home task = none then update sched.home task (some head) else sched.home :=
  sched.chains.pushBack_home

@[simp]
theorem losListDelete_home : (sched.losListDelete task).home = update sched.home task none := rfl

@[simp]
theorem losListDelete_tcb : (sched.losListDelete task).tcb = sched.tcb := rfl

@[simp]
theorem losListDelete_status : (sched.losListDelete task).status = sched.status := rfl

/-! ### What one function does to one task -/

theorem osSchedTaskEnQueue_tcb : ∃ slice, (sched.osSchedTaskEnQueue task).tcb =
    update sched.tcb task
      { sched.tcb task with
        timeSlice := slice
        taskStatus :=
          { sched.status task with
            pend := false, suspend := false, delay := false, pendTime := false, ready := true } } := by
  by_cases idle : task = sched.config.idleTaskID
  · exact ⟨(sched.tcb task).timeSlice, by simp [osSchedTaskEnQueue, idle, losAssert, status]⟩
  by_cases left : (sched.tcb task).timeSlice > sched.config.schedTimeSliceMin
  · refine ⟨(sched.tcb task).timeSlice, ?_⟩
    simp only [osSchedTaskEnQueue, idle, if_false, osSchedTaskEnList, losAssert, left, if_true]
    rfl
  · refine ⟨sched.config.schedTimeSlice, ?_⟩
    simp [osSchedTaskEnQueue, idle, osSchedTaskEnList, losAssert, left, osSchedPriQueueEnTail,
      losListTailInsert, markPriQueue, status]

theorem osSchedTaskEnList_home : (sched.osSchedTaskEnList task).home =
    if sched.home task = none then
      update sched.home task (some (.priQueue (sched.tcb task).priority)) else sched.home := by
  rw [osSchedTaskEnList]
  split
  · exact losListAdd_home _ _ _
  · exact losListTailInsert_home _ _ _

theorem osSchedTaskEnQueue_home : (sched.osSchedTaskEnQueue task).home =
    if task ≠ sched.config.idleTaskID ∧ sched.home task = none then
      update sched.home task (some (.priQueue (sched.tcb task).priority)) else sched.home := by
  by_cases idle : task = sched.config.idleTaskID
  · simp [osSchedTaskEnQueue, idle]
  · simp only [osSchedTaskEnQueue, idle, if_false, modifyStatus_home, osSchedTaskEnList_home,
      losAssert_home, ne_eq, not_false_eq_true, true_and]
    rfl

theorem osSchedTaskEnQueue_toGlobals :
    (sched.osSchedTaskEnQueue task).toGlobals = sched.toGlobals := by
  simp only [osSchedTaskEnQueue, modifyStatus_toGlobals, osSchedTaskEnList]
  split
  · rfl
  · split <;> rfl

theorem osSchedTaskDeQueue_tcb : (sched.osSchedTaskDeQueue task).tcb = update sched.tcb task
      { sched.tcb task with taskStatus := { sched.status task with ready := false } } := by
  by_cases ready : (sched.status task).ready = true
  · rw [osSchedTaskDeQueue, if_pos ready]
    split <;> rfl
  have same : { sched.status task with ready := false } = sched.status task := by
    rw [Bool.not_eq_true] at ready
    rw [← ready]
  rw [osSchedTaskDeQueue, if_neg ready, same]
  exact (Function.update_eq_self task sched.tcb).symm

theorem osSchedTaskDeQueue_home : (sched.osSchedTaskDeQueue task).home =
    if (sched.status task).ready = true ∧ task ≠ sched.config.idleTaskID then
      update sched.home task none else sched.home := by
  by_cases ready : (sched.status task).ready = true
  · by_cases idle : task = sched.config.idleTaskID
    · rw [osSchedTaskDeQueue, if_pos ready, if_pos idle, if_neg fun both => both.2 idle]
      rfl
    · rw [osSchedTaskDeQueue, if_pos ready, if_neg idle, if_pos ⟨ready, idle⟩]
      rfl
  · rw [osSchedTaskDeQueue, if_neg ready, if_neg fun both => ready both.1]

theorem osSchedTaskDeQueue_toGlobals :
    (sched.osSchedTaskDeQueue task).toGlobals = sched.toGlobals := by
  rw [osSchedTaskDeQueue]
  split
  · split <;> rfl
  · rfl

theorem osSchedTaskEnQueue_queueBitmap : (sched.osSchedTaskEnQueue task).queueBitmap =
    if task ≠ sched.config.idleTaskID ∧
        sched.chains.nodes (.priQueue (sched.tcb task).priority) = [] then
      sched.queueBitmap ||| priqueuePrior0Bit >>> (sched.tcb task).priority
    else sched.queueBitmap := by
  by_cases idle : task = sched.config.idleTaskID
  · rw [osSchedTaskEnQueue, if_pos idle, if_neg fun both => both.1 idle]
    rfl
  · rw [osSchedTaskEnQueue, if_neg idle]
    simp only [osSchedTaskEnList, ne_eq, idle, not_false_eq_true, true_and]
    split <;> rfl

theorem osSchedTaskDeQueue_queueBitmap : (sched.osSchedTaskDeQueue task).queueBitmap =
    if ((sched.status task).ready = true ∧ task ≠ sched.config.idleTaskID) ∧
        (sched.losListDelete task).chains.nodes (.priQueue (sched.tcb task).priority) = [] then
      sched.queueBitmap &&& ~~~(priqueuePrior0Bit >>> (sched.tcb task).priority)
    else sched.queueBitmap := by
  by_cases ready : (sched.status task).ready = true
  · by_cases idle : task = sched.config.idleTaskID
    · rw [osSchedTaskDeQueue, if_pos ready, if_pos idle, if_neg fun both => both.1.2 idle]
      rfl
    · rw [osSchedTaskDeQueue]
      simp only [ready, idle, ne_eq, not_false_eq_true, and_self, true_and]
      rfl
  · rw [osSchedTaskDeQueue, if_neg ready, if_neg fun both => ready both.1.1]

end Sched

/-! ### The invariant -/

/-- Where a task may be linked, by its status bits. -/
def Place (config : Config) (task : Nat) (taskCB : LosTaskCB) : Option ListHead → Prop
  | none =>
      (taskCB.taskStatus.ready = true → task = config.idleTaskID) ∧
        taskCB.taskStatus.pend = false ∧
        (taskCB.taskStatus.unused = true ↔ config.taskMaxNum ≤ task)
  | some (.priQueue priority) =>
      taskCB.taskStatus.ready = true ∧ taskCB.taskStatus.pend = false ∧
        taskCB.taskStatus.unused = false ∧ task ≠ config.idleTaskID ∧
        task < config.taskMaxNum ∧ priority = taskCB.priority
  | some (.wait _) =>
      taskCB.taskStatus.ready = false ∧ taskCB.taskStatus.pend = true ∧
        taskCB.taskStatus.unused = false ∧ task ≠ config.idleTaskID ∧ task < config.taskMaxNum
  | some .losFreeTask =>
      taskCB.taskStatus.ready = false ∧ taskCB.taskStatus.pend = false ∧
        taskCB.taskStatus.unused = true ∧ task < config.taskMaxNum
  | some .taskRecycleList =>
      taskCB.taskStatus.ready = false ∧ taskCB.taskStatus.pend = false ∧
        taskCB.taskStatus.unused = true ∧ task < config.taskMaxNum ∧
        taskCB.taskStatus.joinable = false

/-- The status bits of a task agree with each other and with the list it is linked in. -/
structure Placed (config : Config) (task : Nat) (taskCB : LosTaskCB) (home : Option ListHead) :
    Prop where
  ready : taskCB.taskStatus.ready = true → taskCB.taskStatus.suspend = false ∧
    taskCB.taskStatus.delay = false ∧ taskCB.taskStatus.pendTime = false
  priority : task < config.taskMaxNum → taskCB.priority ≤ osTaskPriorityLowest
  idle : task = config.idleTaskID → taskCB.taskStatus.suspend = false ∧
    taskCB.taskStatus.delay = false ∧ taskCB.taskStatus.pendTime = false ∧
    taskCB.taskStatus.exit = false ∧ taskCB.taskStatus.unused = false
  unused : taskCB.taskStatus.unused = true → taskCB.taskStatus.delay = false
  place : Place config task taskCB home

theorem Placed.home_of_ready {config : Config} {task : Nat} {taskCB : LosTaskCB}
    {home : Option ListHead} (placed : Placed config task taskCB home)
    (ready : taskCB.taskStatus.ready = true) (real : task ≠ config.idleTaskID) :
    home = some (.priQueue taskCB.priority) := by
  have place := placed.place
  cases home with
  | none => exact absurd (place.1 ready) real
  | some head =>
    cases head with
    | priQueue priority => exact congrArg (some ∘ ListHead.priQueue) place.2.2.2.2.2
    | wait _ => exact absurd (place.1.symm.trans ready) (by simp)
    | losFreeTask => exact absurd (place.1.symm.trans ready) (by simp)
    | taskRecycleList => exact absurd (place.1.symm.trans ready) (by simp)

/-! ### The bitmap -/

/-- A bitmap marks the priorities of which something holds. -/
def Marks (bitmap : BitVec 32) (occupied : Nat → Prop) : Prop :=
  ∀ priority, priority ≤ osTaskPriorityLowest →
    (bitmap.getLsbD (31 - priority) = true ↔ occupied priority)

theorem getLsbD_prior0Bit {first second : Nat} (low : first ≤ osTaskPriorityLowest)
    (bound : second ≤ osTaskPriorityLowest) :
    (priqueuePrior0Bit >>> first).getLsbD (31 - second) = decide (second = first) := by
  have top : priqueuePrior0Bit = BitVec.twoPow 32 31 := by decide
  rw [osTaskPriorityLowest] at low bound
  rw [BitVec.getLsbD_ushiftRight, top, BitVec.getLsbD_twoPow]
  simp only [decide_eq_decide, Bool.and_eq_decide, decide_eq_true_eq]
  omega

section Marks

variable {bitmap : BitVec 32} {before after : Nat → Prop} {priority : Nat}

theorem Marks.congr (marks : Marks bitmap before) (same : ∀ one, after one ↔ before one) :
    Marks bitmap after :=
  fun one bound => (marks one bound).trans (same one).symm

theorem Marks.set (marks : Marks bitmap before) (low : priority ≤ osTaskPriorityLowest)
    (added : ∀ one, after one ↔ one = priority ∨ before one) :
    Marks (bitmap ||| priqueuePrior0Bit >>> priority) after := by
  intro one bound
  rw [BitVec.getLsbD_or, getLsbD_prior0Bit low bound, Bool.or_eq_true, marks one bound, added,
    decide_eq_true_eq, or_comm]

theorem Marks.clear (marks : Marks bitmap before) (low : priority ≤ osTaskPriorityLowest)
    (removed : ∀ one, after one ↔ one ≠ priority ∧ before one) :
    Marks (bitmap &&& ~~~(priqueuePrior0Bit >>> priority)) after := by
  intro one bound
  have within : 31 - one < 32 := by omega
  rw [BitVec.getLsbD_and, BitVec.getLsbD_not, getLsbD_prior0Bit low bound, removed]
  simp only [within, decide_true, Bool.true_and, Bool.and_eq_true, marks one bound,
    Bool.not_eq_true', decide_eq_false_iff_not, ne_eq, and_comm]

end Marks

namespace Sched

def Occupied (sched : Sched) (priority : Nat) : Prop :=
  ∃ task, sched.home task = some (.priQueue priority)

/-- The scheduler is in order. -/
structure Sound (sched : Sched) : Prop where
  placed : ∀ task, Placed sched.config task (sched.tcb task) (sched.home task)
  marked : Marks sched.queueBitmap sched.Occupied
  idle : sched.config.idleTaskID < sched.config.taskMaxNum

/-- Only one task is changed: the globals, the other control blocks and the places of the other
tasks stay. -/
structure Touches (task : Nat) (sched next : Sched) : Prop where
  globals : next.toGlobals = sched.toGlobals
  tcb : ∀ other, other ≠ task → next.tcb other = sched.tcb other
  home : ∀ other, other ≠ task → next.home other = sched.home other

theorem Touches.trans {task : Nat} {sched middle next : Sched} (first : Touches task sched middle)
    (second : Touches task middle next) : Touches task sched next where
  globals := second.globals.trans first.globals
  tcb other differs := (second.tcb other differs).trans (first.tcb other differs)
  home other differs := (second.home other differs).trans (first.home other differs)

theorem Touches.config {task : Nat} {sched next : Sched} (touches : Touches task sched next) :
    next.config = sched.config :=
  congrArg Globals.config touches.globals

variable {sched next : Sched} {task : Nat}

theorem Sound.touch (sound : sched.Sound) (touches : Touches task sched next)
    (placed : Placed sched.config task (next.tcb task) (next.home task))
    (bitmap : next.queueBitmap = sched.queueBitmap)
    (queue : ∀ priority, next.home task = some (.priQueue priority) ↔
      sched.home task = some (.priQueue priority)) : next.Sound where
  placed one := by
    rw [touches.config]
    by_cases same : one = task
    · exact same ▸ placed
    · rw [touches.tcb one same, touches.home one same]
      exact sound.placed one
  marked := by
    rw [bitmap]
    refine sound.marked.congr fun priority => exists_congr fun one => ?_
    by_cases same : one = task
    · rw [same, queue]
    · rw [touches.home one same]
  idle := touches.config ▸ sound.idle

theorem Sound.modify (sound : sched.Sound) (change : LosTaskCB → LosTaskCB)
    (placed : Placed sched.config task (change (sched.tcb task)) (sched.home task)) :
    (sched.modify task change).Sound := by
  refine @Sound.touch sched _ task sound ⟨rfl, fun other differs => ?_, fun _ _ => rfl⟩ ?_ rfl
    fun _ => Iff.rfl
  · exact update_of_ne differs _ _
  · rw [modify_tcb, update_self]
    exact placed

/-! ### The ready queues -/

/-- A queue is empty exactly when no task is linked in it. -/
theorem nodes_priQueue_eq_nil_iff {priority : Nat} :
    sched.chains.nodes (.priQueue priority) = [] ↔ ¬sched.Occupied priority :=
  sched.chains.nodes_eq_nil_iff.trans not_exists.symm

theorem osSchedTaskEnQueue_touches (sched : Sched) (task : Nat) :
    Touches task sched (sched.osSchedTaskEnQueue task) where
  globals := sched.osSchedTaskEnQueue_toGlobals task
  tcb other differs := by
    obtain ⟨slice, tcb⟩ := sched.osSchedTaskEnQueue_tcb task
    rw [tcb, update_of_ne differs]
  home other differs := by
    rw [osSchedTaskEnQueue_home]
    split
    · exact update_of_ne differs _ _
    · rfl

theorem osSchedTaskDeQueue_touches (sched : Sched) (task : Nat) :
    Touches task sched (sched.osSchedTaskDeQueue task) where
  globals := sched.osSchedTaskDeQueue_toGlobals task
  tcb other differs := by rw [osSchedTaskDeQueue_tcb, update_of_ne differs]
  home other differs := by
    rw [osSchedTaskDeQueue_home]
    split
    · exact update_of_ne differs _ _
    · rfl

theorem Sound.relink (sound : sched.Sound) (touches : Touches task sched next)
    (placed : Placed sched.config task (next.tcb task) (next.home task))
    (marked : Marks next.queueBitmap next.Occupied) : next.Sound where
  placed one := by
    rw [touches.config]
    by_cases same : one = task
    · exact same ▸ placed
    · rw [touches.tcb one same, touches.home one same]
      exact sound.placed one
  marked := marked
  idle := touches.config ▸ sound.idle

theorem Sound.enQueue (sound : sched.Sound) (free : sched.home task = none)
    (real : task < sched.config.taskMaxNum) : (sched.osSchedTaskEnQueue task).Sound := by
  obtain ⟨slice, tcb⟩ := sched.osSchedTaskEnQueue_tcb task
  have home := sched.osSchedTaskEnQueue_home task
  have bitmap := sched.osSchedTaskEnQueue_queueBitmap task
  have old := sound.placed task
  have created : (sched.tcb task).taskStatus.unused ≠ true :=
    mt (free ▸ old.place).2.2.mp (Nat.not_le.mpr real)
  refine sound.relink (sched.osSchedTaskEnQueue_touches task) ?_ ?_
  · rw [tcb, home, update_self]
    by_cases idle : task = sched.config.idleTaskID
    · rw [if_neg fun both => both.1 idle, free]
      exact ⟨fun _ => ⟨rfl, rfl, rfl⟩, old.priority,
        fun same => ⟨rfl, rfl, rfl, (old.idle same).2.2.2⟩, fun _ => rfl, fun _ => idle, rfl,
        iff_of_false created (Nat.not_le.mpr real)⟩
    · rw [if_pos ⟨idle, free⟩, update_self]
      exact ⟨fun _ => ⟨rfl, rfl, rfl⟩, old.priority, fun same => absurd same idle, fun _ => rfl,
        rfl, rfl, Bool.eq_false_iff.mpr created, idle, real, rfl⟩
  · by_cases idle : task = sched.config.idleTaskID
    · rw [if_neg fun both => both.1 idle] at home bitmap
      rw [bitmap]
      exact sound.marked.congr fun priority => by rw [Occupied, home, Occupied]
    rw [if_pos ⟨idle, free⟩] at home
    have added : ∀ priority, (sched.osSchedTaskEnQueue task).Occupied priority ↔
        priority = (sched.tcb task).priority ∨ sched.Occupied priority := by
      intro priority
      rw [Occupied, home]
      constructor
      · rintro ⟨one, linked⟩
        by_cases same : one = task
        · rw [same, update_self, Option.some.injEq, ListHead.priQueue.injEq] at linked
          exact .inl linked.symm
        · rw [update_of_ne same] at linked
          exact .inr ⟨one, linked⟩
      · rintro (rfl | ⟨one, linked⟩)
        · exact ⟨task, update_self _ _ _⟩
        · refine ⟨one, ?_⟩
          rw [update_of_ne]
          · exact linked
          · rintro rfl
            exact absurd (free.symm.trans linked) (by simp)
    rw [bitmap]
    by_cases empty : sched.chains.nodes (.priQueue (sched.tcb task).priority) = []
    · rw [if_pos ⟨idle, empty⟩]
      exact sound.marked.set (old.priority real) added
    rw [if_neg fun both => empty both.2]
    refine sound.marked.congr fun priority => ?_
    rw [added, or_iff_right_iff_imp]
    intro same
    rw [same]
    exact not_not.mp (mt nodes_priQueue_eq_nil_iff.mpr empty)

theorem Sound.deQueue (sound : sched.Sound) : (sched.osSchedTaskDeQueue task).Sound := by
  have tcb := sched.osSchedTaskDeQueue_tcb task
  have home := sched.osSchedTaskDeQueue_home task
  have bitmap := sched.osSchedTaskDeQueue_queueBitmap task
  have old := sound.placed task
  by_cases linked : (sched.status task).ready = true ∧ task ≠ sched.config.idleTaskID
  · rw [if_pos linked] at home
    have here : sched.home task = some (.priQueue (sched.tcb task).priority) :=
      old.home_of_ready linked.1 linked.2
    obtain ⟨ready, pend, created, -, real, -⟩ := here ▸ old.place
    refine sound.relink (sched.osSchedTaskDeQueue_touches task) ?_ ?_
    · rw [tcb, home, update_self, update_self]
      exact ⟨nofun, old.priority, old.idle, old.unused, nofun, pend,
        iff_of_false (Bool.eq_false_iff.mp created) (Nat.not_le.mpr real)⟩
    · have occupied : ∀ priority, (sched.osSchedTaskDeQueue task).Occupied priority ↔
          ∃ one, one ≠ task ∧ sched.home one = some (.priQueue priority) := by
        intro priority
        rw [Occupied, home]
        refine exists_congr fun one => ?_
        by_cases same : one = task <;> simp [same]
      have elsewhere : ∀ priority, priority ≠ (sched.tcb task).priority →
          ((sched.osSchedTaskDeQueue task).Occupied priority ↔ sched.Occupied priority) := by
        intro priority differs
        rw [occupied]
        refine exists_congr fun one => and_iff_right_of_imp fun found => ?_
        rintro rfl
        rw [here, Option.some.injEq, ListHead.priQueue.injEq] at found
        exact differs found.symm
      have empty : (sched.losListDelete task).chains.nodes
          (.priQueue (sched.tcb task).priority) = [] ↔
          ¬(sched.osSchedTaskDeQueue task).Occupied (sched.tcb task).priority := by
        rw [nodes_priQueue_eq_nil_iff, Occupied, Occupied, home]
        rfl
      rw [bitmap]
      by_cases last : (sched.losListDelete task).chains.nodes
          (.priQueue (sched.tcb task).priority) = []
      · rw [if_pos ⟨linked, last⟩]
        refine sound.marked.clear (old.priority real) fun priority => ?_
        by_cases its : priority = (sched.tcb task).priority
        · simpa [its] using empty.mp last
        · simpa [its] using elsewhere priority its
      · rw [if_neg fun both => last both.2]
        refine sound.marked.congr fun priority => ?_
        by_cases its : priority = (sched.tcb task).priority
        · rw [its]
          exact iff_of_true (not_not.mp (mt empty.mpr last)) ⟨task, here⟩
        · exact elsewhere priority its
  · rw [if_neg linked] at home
    rw [if_neg fun both => linked both.1] at bitmap
    refine sound.touch (sched.osSchedTaskDeQueue_touches task) ?_ bitmap fun _ => by rw [home]
    rw [tcb, home, update_self]
    refine ⟨nofun, old.priority, old.idle, old.unused, ?_⟩
    have place := old.place
    cases found : sched.home task with
    | none =>
      rw [found] at place
      exact ⟨nofun, place.2⟩
    | some head =>
      rw [found] at place
      cases head with
      | priQueue priority => exact absurd ⟨place.1, place.2.2.2.1⟩ linked
      | wait _ => exact ⟨rfl, place.2⟩
      | losFreeTask => exact ⟨rfl, place.2⟩
      | taskRecycleList => exact ⟨rfl, place.2⟩

end Sched

end TowerSafe.Kernel
