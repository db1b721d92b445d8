/-
This file keeps the accounts of semaphores over whole runs. Every unit of a semaphore is in its
count, or it was given to a task; and a task that was given a unit while it waited is owed the
`LOS_OK` of its `LOS_SemPend`. The accounts balance in every run in which no task is resumed
that was frozen while it waited and whose time has passed since: thawing such a task ends its
wait without marking it as timed out, and its call then takes that for a unit.
-/

import TowerSafe.Kernel.Frames

namespace TowerSafe.Kernel

open Library
open Function (update update_self update_of_ne)

/-! ### The accounts -/

/-- The calls that semaphores are about, with suspending and resuming. -/
def Operation.onSemaphore : Operation → Bool
  | semPend _ _ => true
  | semPost _ => true
  | taskSuspend _ => true
  | taskResume _ => true
  | _ => false

def Action.onSemaphore : Action → Bool
  | setPmMode _ => true
  | action => action.within Operation.onSemaphore

def Event.grants (sem : Nat) : Event → Bool
  | semGranted other _ => decide (other = sem)
  | _ => false

/-- A call of `LOS_SemPend` that was given a unit while it waited, and has not returned. -/
def owedOk (pc : Pc) (view : TaskView) (sem : Nat) : Nat :=
  if pc.waitsIn = some (.semList sem) ∧ view.wait = none ∧ view.timeout = false then 1 else 0

/-- What a run on semaphores promises: the count is the initial one with the posts and without
the units given away, tasks wait only for a semaphore whose count is zero, the count stays
within its maximum, and `LOS_OK` is only returned for units given to that very task. -/
structure SemaphoresInOrder (initial : Nat → LosSemCB) (machine : Machine) : Prop where
  conserved : ∀ sem, (machine.allSem sem).semCount + machine.log.countP (Event.grants sem) =
    (initial sem).semCount + machine.log.count (.semPosted sem)
  waited : ∀ sem, machine.sched.chains.nodes (.wait (.semList sem)) ≠ [] →
    (machine.allSem sem).semCount = 0
  bounded : ∀ sem, (machine.allSem sem).semCount ≤ (initial sem).maxSemCount
  earned : ∀ sem task, machine.log.count (.semPendOk sem task) ≤
    machine.log.count (.semGranted sem task)

/-- A task is in no call but `LOS_SemPend` that still has something to do. -/
def Pc.OnSemaphore : Pc → Prop
  | .user => True
  | .creating _ => False
  | .schedule cont => (∃ ret, cont = .finish ret) ∨ ∃ sem, cont = .semPend sem
  | .resume cont => (∃ ret, cont = .finish ret) ∨ ∃ sem, cont = .semPend sem

/-- The accounts of all semaphores. -/
structure SemAccounts (initial allSem : Nat → LosSemCB) (log : List Event) (pc : Nat → Pc)
    (view : Nat → TaskView) : Prop where
  conserved : ∀ sem, (allSem sem).semCount + log.countP (Event.grants sem) =
    (initial sem).semCount + log.count (.semPosted sem)
  waited : ∀ sem task, (view task).wait = some (.semList sem) → (allSem sem).semCount = 0
  bounded : ∀ sem, (allSem sem).semCount ≤ (allSem sem).maxSemCount
  limits : ∀ sem, (allSem sem).maxSemCount = (initial sem).maxSemCount
  owed : ∀ sem task, log.count (.semGranted sem task) =
    log.count (.semPendOk sem task) + owedOk (pc task) (view task) sem
  inside : ∀ task, (pc task).OnSemaphore

section Accounts

variable {initial allSem after : Nat → LosSemCB} {log : List Event} {pc moved : Nat → Pc}
  {view next : Nat → TaskView}

theorem owedOk_timedOut (pc : Pc) (view : TaskView) (sem : Nat) :
    owedOk pc view.timedOut sem = owedOk pc view sem := by
  rw [TaskView.timedOut]
  split
  · rfl
  rename_i waits
  rw [owedOk, owedOk, if_neg, if_neg]
  · exact fun all => waits all.2.1
  · exact fun all => absurd all.2.2 (by simp)

section

variable (accounts : SemAccounts initial allSem log pc view)
include accounts

theorem SemAccounts.keep
    (calls : ∀ task, (moved task).waitsIn = (pc task).waitsIn)
    (inside : ∀ task, (moved task).OnSemaphore)
    (views : ∀ task, next task = view task ∨ next task = (view task).timedOut) :
    SemAccounts initial allSem log moved next where
  conserved := accounts.conserved
  waited sem task waiting := by
    rcases views task with same | late
    · exact accounts.waited sem task (same ▸ waiting)
    rw [late, TaskView.timedOut] at waiting
    split at waiting
    · exact accounts.waited sem task waiting
    · cases waiting
  bounded := accounts.bounded
  limits := accounts.limits
  owed sem task := by
    have same : owedOk (moved task) (view task) sem = owedOk (pc task) (view task) sem := by
      rw [owedOk, owedOk, calls task]
    rw [accounts.owed sem task]
    rcases views task with kept | late
    · rw [kept, same]
    · rw [late, owedOk_timedOut, same]
  inside := inside

theorem SemAccounts.advance {task : Nat} {cont : Cont} (inside : pc task = .schedule cont) :
    SemAccounts initial allSem log (update pc task (.resume cont)) view := by
  refine accounts.keep (fun one => ?_) (fun one => ?_) fun _ => .inl rfl
  · by_cases same : one = task
    · rw [same, update_self, inside]
      rfl
    · rw [update_of_ne same]
  · by_cases same : one = task
    · have kind := accounts.inside task
      rw [inside] at kind
      rw [same, update_self]
      exact kind
    · rw [update_of_ne same]
      exact accounts.inside one

theorem SemAccounts.take {sem : Nat}
    (task : Nat) (units : (allSem sem).semCount > 0) :
    SemAccounts initial (update allSem sem
        { allSem sem with semCount := (allSem sem).semCount - 1 })
      (.semPendOk sem task :: .semGranted sem task :: log) pc view where
  conserved other := by
    have before := accounts.conserved other
    by_cases same : other = sem
    · subst same
      simp [Event.grants]
      omega
    · simpa [same, Ne.symm same, Event.grants] using before
  waited other one waiting := by
    have before := accounts.waited other one waiting
    by_cases same : other = sem
    · subst same
      rw [update_self, before]
    · rw [update_of_ne same, before]
  bounded other := by
    have before := accounts.bounded other
    by_cases same : other = sem
    · subst same
      rw [update_self]
      exact Nat.le_trans (Nat.sub_le _ _) before
    · rw [update_of_ne same]
      exact before
  limits other := by
    have before := accounts.limits other
    by_cases same : other = sem
    · subst same
      rw [update_self, ← before]
    · rw [update_of_ne same, before]
  owed other one := by
    have before := accounts.owed other one
    simp only [List.count_cons, beq_iff_eq, Event.semGranted.injEq, Event.semPendOk.injEq,
      reduceCtorEq, if_false, Nat.add_zero]
    omega
  inside := accounts.inside

theorem SemAccounts.wait {sem task : Nat}
    (none : (allSem sem).semCount = 0) (user : pc task = .user) :
    SemAccounts initial allSem log (update pc task (.schedule (.semPend sem)))
      (update view task ((view task).waitIn (.semList sem))) where
  conserved := accounts.conserved
  waited other one waiting := by
    by_cases same : one = task
    · rw [same] at waiting
      obtain rfl : sem = other := by simpa [TaskView.waitIn] using waiting
      exact none
    · rw [update_of_ne same] at waiting
      exact accounts.waited other one waiting
  bounded := accounts.bounded
  limits := accounts.limits
  owed other one := by
    have before := accounts.owed other one
    by_cases same : one = task
    · rw [same, user] at before
      rw [same, before]
      simp [owedOk, TaskView.waitIn, Pc.waitsIn]
    · rw [update_of_ne same, update_of_ne same, before]
  inside one := by
    by_cases same : one = task
    · rw [same, update_self]
      exact .inr ⟨sem, rfl⟩
    · rw [update_of_ne same]
      exact accounts.inside one

theorem SemAccounts.hand {sem task : Nat}
    (waits : (view task).wait = some (.semList sem)) (onTime : (view task).timeout = false)
    (inCall : (pc task).waitsIn = some (.semList sem)) :
    SemAccounts initial allSem (.semGranted sem task :: .semPosted sem :: log) pc
      (update view task (view task).unwait) where
  conserved other := by
    have before := accounts.conserved other
    by_cases same : other = sem
    · subst same
      simp [Event.grants]
      omega
    · simpa [same, Ne.symm same, Event.grants] using before
  waited other one waiting := by
    by_cases same : one = task
    · rw [same, update_self] at waiting
      exact absurd waiting nofun
    · rw [update_of_ne same] at waiting
      exact accounts.waited other one waiting
  bounded := accounts.bounded
  limits := accounts.limits
  owed other one := by
    have before := accounts.owed other one
    by_cases same : one = task
    · subst same
      have waited : owedOk (pc one) (view one) other = 0 := by
        simp [owedOk, waits]
      rw [update_self]
      by_cases its : other = sem
      · subst its
        have owed : owedOk (pc one) (view one).unwait other = 1 := by
          simp [owedOk, TaskView.unwait, onTime, inCall]
        simp only [List.count_cons, beq_iff_eq, reduceCtorEq, if_false, if_true]
        omega
      · have other' : owedOk (pc one) (view one).unwait other = 0 := by
          simp [owedOk, inCall, Ne.symm its]
        simp only [List.count_cons, beq_iff_eq, Event.semGranted.injEq, Ne.symm its, false_and,
          reduceCtorEq, if_false]
        omega
    · rw [update_of_ne same]
      simp [before, Ne.symm same]
  inside := accounts.inside

theorem SemAccounts.post {sem : Nat}
    (below : (allSem sem).maxSemCount ≠ (allSem sem).semCount)
    (nobody : ∀ task, (view task).wait ≠ some (.semList sem)) :
    SemAccounts initial (update allSem sem
        { allSem sem with semCount := (allSem sem).semCount + 1 })
      (.semPosted sem :: log) pc view where
  conserved other := by
    have before := accounts.conserved other
    by_cases same : other = sem
    · subst same
      simp [Event.grants]
      omega
    · simpa [same, Ne.symm same, Event.grants] using before
  waited other one waiting := by
    by_cases same : other = sem
    · exact absurd (same ▸ waiting) (nobody one)
    · rw [update_of_ne same]
      exact accounts.waited other one waiting
  bounded other := by
    have before := accounts.bounded other
    by_cases same : other = sem
    · subst same
      rw [update_self]
      exact Nat.lt_of_le_of_ne before below.symm
    · rw [update_of_ne same]
      exact before
  limits other := by
    have before := accounts.limits other
    by_cases same : other = sem
    · subst same
      rw [update_self, ← before]
    · rw [update_of_ne same, before]
  owed other one := by
    simp [accounts.owed other one]
  inside := accounts.inside

theorem SemAccounts.pay {sem task : Nat}
    (inCall : pc task = .resume (.semPend sem)) (awake : (view task).wait = none)
    (onTime : (view task).timeout = false) :
    SemAccounts initial allSem (.semPendOk sem task :: log) (update pc task .user)
      view where
  conserved other := by simpa [Event.grants] using accounts.conserved other
  waited := accounts.waited
  bounded := accounts.bounded
  limits := accounts.limits
  owed other one := by
    have before := accounts.owed other one
    by_cases same : one = task
    · subst same
      rw [inCall] at before
      have paid : owedOk .user (view one) other = 0 := by simp [owedOk, Pc.waitsIn]
      rw [update_self]
      by_cases its : other = sem
      · subst its
        have owed : owedOk (.resume (.semPend other)) (view one) other = 1 := by
          simp [owedOk, Pc.waitsIn, Cont.waitsIn, awake, onTime]
        simp only [List.count_cons, beq_iff_eq, reduceCtorEq, if_false, if_true]
        omega
      · have other' : owedOk (.resume (.semPend sem)) (view one) other = 0 := by
          simp [owedOk, Pc.waitsIn, Cont.waitsIn, Ne.symm its]
        simp only [List.count_cons, beq_iff_eq, Event.semPendOk.injEq, Ne.symm its, false_and,
          reduceCtorEq, if_false]
        omega
    · rw [update_of_ne same]
      simp [before, Ne.symm same]
  inside one := by
    by_cases same : one = task
    · rw [same, update_self]
      trivial
    · rw [update_of_ne same]
      exact accounts.inside one

theorem SemAccounts.leave (task : Nat)
    (nothing : ∀ sem, owedOk (pc task) (view task) sem = 0) (after : TaskView)
    (awake : after.wait = (view task).wait) :
    SemAccounts initial allSem log (update pc task .user)
      (update view task after) where
  conserved := accounts.conserved
  waited other one waiting := by
    by_cases same : one = task
    · rw [same, update_self, awake] at waiting
      exact accounts.waited other task waiting
    · rw [update_of_ne same] at waiting
      exact accounts.waited other one waiting
  bounded := accounts.bounded
  limits := accounts.limits
  owed other one := by
    have before := accounts.owed other one
    by_cases same : one = task
    · subst same
      rw [nothing] at before
      rw [before]
      simp [owedOk, Pc.waitsIn]
    · rw [update_of_ne same, update_of_ne same, before]
  inside one := by
    by_cases same : one = task
    · rw [same, update_self]
      trivial
    · rw [update_of_ne same]
      exact accounts.inside one

end

end Accounts

/-! ### Steps -/

/-- Where a critical section leaves the tasks: the running one comes to what is left of its call,
and an interrupt handler leaves them where they are. -/
def Machine.pcAfter (machine : Machine) (interrupt : Bool) (ending : Next) : Nat → Pc :=
  if interrupt then machine.pc else update machine.pc machine.runTask ending.pc

/-- The accounts of the semaphores of a machine. -/
def Machine.SemBalance (initial : Nat → LosSemCB) (machine : Machine) (pc : Nat → Pc) : Prop :=
  SemAccounts initial machine.allSem machine.log pc machine.sched.view

section Steps

variable {initial : Nat → LosSemCB} {machine next : Machine} {interrupt : Bool} {pc : Nat → Pc}

theorem Machine.SemBalance.ends {ending : Next} (balance : next.SemBalance initial machine.pc)
    (user : interrupt = false → machine.pc machine.runTask = .user)
    (idle : ending.pc.waitsIn = none) (inside : ending.pc.OnSemaphore) :
    next.SemBalance initial (machine.pcAfter interrupt ending) := by
  rw [Machine.pcAfter]
  cases interrupt with
  | true => exact balance
  | false =>
    refine balance.keep (fun task => ?_) (fun task => ?_) fun _ => .inl rfl
    · simp only [Bool.false_eq_true, if_false]
      by_cases same : task = machine.runTask
      · rw [same, update_self, idle, user rfl, Pc.waitsIn]
      · rw [update_of_ne same]
    · simp only [Bool.false_eq_true, if_false]
      by_cases same : task = machine.runTask
      · rw [same, update_self]
        exact inside
      · rw [update_of_ne same]
        exact balance.inside task

section

variable (balance : machine.SemBalance initial machine.pc)
include balance

theorem Machine.SemBalance.returns
    (user : interrupt = false → machine.pc machine.runTask = .user) (ret : Ret) :
    machine.SemBalance initial (machine.pcAfter interrupt (.returns ret)) :=
  balance.ends user rfl trivial

section

variable (wellFormed : WellFormed False machine)
include wellFormed

theorem Machine.SemBalance.semPend (calls : machine.Calls interrupt)
    (user : interrupt = false → machine.pc machine.runTask = .user) (sem timeout : Nat) :
    (machine.losSemPend interrupt sem timeout).1.SemBalance initial
      (machine.pcAfter interrupt (machine.losSemPend interrupt sem timeout).2) := by
  rw [losSemPend]
  split
  · exact balance.returns user _
  split
  · exact balance.returns user _
  rename_i valid
  obtain ⟨-, task, -⟩ := osSemValidCheck_eq_none valid
  split
  · rename_i units
    exact Machine.SemBalance.ends (balance.take machine.runTask units) user rfl trivial
  rename_i empty
  split
  · exact balance.returns user _
  have free := wellFormed.sound.home_of_runnable (calls task).1
  have waiting := SemAccounts.wait balance (Nat.eq_zero_of_not_pos empty) (user task)
  rw [← Sched.osSchedTaskWait_view timeout free] at waiting
  rw [task]
  exact waiting

section

variable (user : interrupt = false → machine.pc machine.runTask = .user)
include user

theorem Machine.SemBalance.semPost (sem : Nat) :
    (machine.losSemPost sem).1.SemBalance initial
      (machine.pcAfter interrupt (machine.losSemPost sem).2) := by
  rw [losSemPost]
  split
  · exact balance.returns user _
  split
  · exact balance.returns user _
  split
  · exact balance.returns user _
  rename_i below
  split
  · rename_i resumedTask found
    have waiting := Sched.view_wait_eq_some_iff.mpr (Sched.home_of_firstWaiter found)
    have inCall := wellFormed.waits resumedTask _ waiting
    have onTime : (machine.sched.view resumedTask).timeout = false := by
      by_contra late
      rw [Bool.not_eq_false] at late
      have created := wellFormed.sound.created_of_home (Sched.home_of_firstWaiter found)
      exact absurd (waiting.symm.trans (wellFormed.punctual id _ created late).1) (by simp)
    have handed := SemAccounts.hand balance waiting onTime inCall
    rw [← Sched.osSchedTaskWake_view] at handed
    exact Machine.SemBalance.ends handed user rfl (.inl ⟨_, rfl⟩)
  · rename_i nobody
    refine Machine.SemBalance.ends (balance.post below fun task waiting => ?_) user rfl trivial
    exact Sched.firstWaiter_eq_none_iff.mp nobody task (Sched.view_wait_eq_some_iff.mp waiting)

theorem Machine.SemBalance.taskResume {taskID : Nat}
    (thaws : machine.sched.expired taskID = true → (machine.sched.view taskID).wait = none) :
    (machine.losTaskResume taskID).1.SemBalance initial
      (machine.pcAfter interrupt (machine.losTaskResume taskID).2) := by
  rw [losTaskResume]
  split
  · exact balance.returns user _
  split
  · exact balance.returns user _
  split
  · exact balance.returns user _
  have same : (machine.sched.osSchedResume taskID).1.view = machine.sched.view := by
    rw [wellFormed.sound.resume_view]
    split
    · rename_i expired
      have awake : (machine.sched.view taskID).unwait = machine.sched.view taskID := by
        rw [TaskView.unwait, ← thaws expired]
      rw [awake, Function.update_eq_self]
    · rfl
  have resumed : (machine.withSched (machine.sched.osSchedResume taskID).1).SemBalance
      initial machine.pc := by
    rw [Machine.SemBalance]
    exact same ▸ balance
  split
  · exact resumed.ends user rfl (.inl ⟨_, rfl⟩)
  · exact resumed.ends user rfl trivial

theorem Machine.SemBalance.taskSuspend (taskID : Nat) :
    (machine.losTaskSuspend taskID).1.SemBalance initial
      (machine.pcAfter interrupt (machine.losTaskSuspend taskID).2) := by
  have suspended : (machine.withSched (machine.sched.osSchedSuspend taskID)).SemBalance
      initial machine.pc := by
    rw [Machine.SemBalance]
    exact wellFormed.sound.suspend_view ▸ balance
  rw [losTaskSuspend]
  split
  · exact balance.returns user _
  split
  · exact balance.returns user _
  split
  · exact balance.returns user _
  split
  · exact balance.returns user _
  split
  · exact balance.returns user _
  · split
    · exact suspended.ends user rfl (.inl ⟨_, rfl⟩)
    · exact suspended.ends user rfl trivial

end

end

end

/-- The task that a step resumes. -/
def Action.resumes : Action → Option Nat
  | .call (.taskResume taskID) => some taskID
  | .interrupt (.taskResume taskID) => some taskID
  | _ => none

/-- The condition on a step: it belongs to a run on semaphores, and it does not resume a task that
waits, frozen, and whose time has passed. -/
def ResumesInTime (machine : Machine) (action : Action) : Prop :=
  action.onSemaphore = true ∧ ∀ taskID ∈ action.resumes,
    machine.sched.expired taskID = true → (machine.sched.view taskID).wait = none

instance (machine : Machine) (action : Action) : Decidable (ResumesInTime machine action) :=
  inferInstanceAs (Decidable (_ ∧ _))

theorem Action.onSemaphore_operation {action : Action} (allowed : action.onSemaphore = true)
    {operation : Operation} (made : action.operation = some operation) :
    operation.onSemaphore = true := by
  cases action with
  | call other =>
    obtain rfl := Option.some.inj made
    exact allowed
  | interrupt other =>
    obtain rfl := Option.some.inj made
    exact allowed
  | _ => exact absurd made nofun

theorem Machine.SemBalance.enter (balance : machine.SemBalance initial machine.pc)
    (wellFormed : WellFormed False machine) (calls : machine.Calls interrupt)
    (user : interrupt = false → machine.pc machine.runTask = .user) {operation : Operation}
    (allowed : operation.onSemaphore = true) (thaws : ∀ taskID, operation = .taskResume taskID →
      machine.sched.expired taskID = true → (machine.sched.view taskID).wait = none) :
    (machine.enter interrupt operation).1.SemBalance initial
      (machine.pcAfter interrupt (machine.enter interrupt operation).2) := by
  cases operation with
  | semPend sem timeout => exact balance.semPend wellFormed calls user sem timeout
  | semPost sem => exact balance.semPost wellFormed user sem
  | taskSuspend taskID => exact balance.taskSuspend wellFormed user taskID
  | taskResume taskID => exact balance.taskResume wellFormed user (thaws taskID rfl)
  | _ => exact absurd allowed nofun

theorem Machine.SemBalance.leave (balance : machine.SemBalance initial machine.pc)
    (wellFormed : WellFormed False machine)
    (runnable : Runnable (machine.sched.status machine.runTask)) {cont : Cont}
    (inside : machine.pc machine.runTask = .resume cont) : (machine.leave cont).1.SemBalance initial
      (update machine.pc machine.runTask (machine.leave cont).2.pc) := by
  have awake := wellFormed.sound.wait_of_runnable runnable
  have kind := balance.inside machine.runTask
  rw [inside] at kind
  rcases kind with ⟨ret, rfl⟩ | ⟨sem, rfl⟩
  · have left := SemAccounts.leave balance machine.runTask
      (fun sem => by simp [owedOk, inside, Pc.waitsIn, Cont.waitsIn])
      (machine.sched.view machine.runTask) rfl
    rw [Function.update_eq_self] at left
    exact left
  · rw [Machine.leave, losSemPendResumed]
    split
    · rename_i late
      have marked : (machine.sched.view machine.runTask).timeout = true := late
      have left := SemAccounts.leave balance machine.runTask (fun sem => by simp [owedOk, marked])
        { machine.sched.view machine.runTask with timeout := false } rfl
      rw [← Sched.clearTimeout_view] at left
      exact left
    · rename_i onTime
      exact SemAccounts.pay balance inside awake (Bool.not_eq_true _ ▸ onTime)

theorem Machine.losSemPendResumed_stays (sem : Nat) :
    machine.Stays (machine.losSemPendResumed sem).1 := by
  rw [losSemPendResumed]
  split <;> exact ⟨rfl, rfl⟩

theorem Operation.onSemaphore_stays {operation : Operation}
    (allowed : operation.onSemaphore = true) :
    machine.Stays (machine.enter interrupt operation).1 := by
  cases operation with
  | semPend sem timeout => exact Machine.losSemPend_stays sem timeout
  | semPost sem => exact Machine.losSemPost_stays sem
  | taskSuspend taskID => exact Machine.losTaskSuspend_stays taskID
  | taskResume taskID => exact Machine.losTaskResume_stays taskID
  | _ => exact absurd allowed nofun

theorem Machine.SemBalance.same (balance : machine.SemBalance initial pc)
    (objects : next.objects = machine.objects) (view : next.sched.view = machine.sched.view) :
    next.SemBalance initial pc := by
  rw [Machine.SemBalance, allSem_of_objects objects, log_of_objects objects, view]
  exact balance

theorem Machine.SemBalance.step {action : Action} (wellFormed : WellFormed False machine)
    (balance : machine.SemBalance initial machine.pc) (meets : ResumesInTime machine action)
    (steps : machine.Steps action next) : next.SemBalance initial next.pc := by
  obtain ⟨allowed, thaws⟩ := meets
  cases steps with
  | call goes inside real =>
    rename_i operation
    have runnable := wellFormed.runnable goes (by simp [inside])
    have entered : (machine.enter false operation).1.SemBalance initial
        (machine.pcAfter false (machine.enter false operation).2) :=
      balance.enter wellFormed (fun _ => ⟨runnable, real⟩) (fun _ => inside) allowed
        fun taskID same => thaws taskID (Option.mem_def.mpr (by rw [same]; rfl))
    rw [(Operation.onSemaphore_stays allowed).proceed_pc]
    exact entered
  | schedule goes inside =>
    rw [losSchedule_pc]
    exact Machine.SemBalance.same (SemAccounts.advance balance inside) (losSchedule_objects _)
      (losSchedule_view _)
  | resume goes inside =>
    have runnable := wellFormed.runnable goes (by simp [inside])
    have left := balance.leave wellFormed runnable inside
    have kind := balance.inside machine.runTask
    rw [inside] at kind
    rename_i cont
    have stays : machine.Stays (machine.leave cont).1 := by
      rcases kind with ⟨ret, rfl⟩ | ⟨sem, rfl⟩
      · exact .refl
      · exact Machine.losSemPendResumed_stays sem
    rw [stays.proceed_pc]
    exact left
  | enqueue goes inside => exact absurd allowed nofun
  | interrupt may =>
    rename_i operation
    have entered : (machine.enter true operation).1.SemBalance initial
        (machine.pcAfter true (machine.enter true operation).2) :=
      balance.enter wellFormed (fun task => absurd task (by simp))
        (fun task => absurd task (by simp)) allowed
        fun taskID same => thaws taskID (Option.mem_def.mpr (by rw [same]; rfl))
    rw [handle_pc, (Operation.onSemaphore_stays allowed).pc]
    exact Machine.SemBalance.same entered (handle_objects _) (handle_view _)
  | interruptEnqueue member => exact absurd allowed nofun
  | switch due last =>
    rw [losSchedule_pc]
    exact balance.same (losSchedule_objects _) (losSchedule_view _)
  | tick =>
    exact SemAccounts.keep balance (fun _ => rfl) balance.inside fun task =>
      wellFormed.sound.ticked_view _ task
  | elapse => exact balance
  | setPmMode => exact balance
  | recycle => exact absurd allowed nofun

end Steps

/-! ### Runs -/

/-- A machine on which a run on semaphores starts: nothing has been logged, and no semaphore is
over its maximum. -/
structure SemaphoresInitial (machine : Machine) : Prop where
  initial : Initial machine
  log : machine.log = []
  bounded : ∀ sem, (machine.allSem sem).semCount ≤ (machine.allSem sem).maxSemCount

theorem SemaphoresInitial.semBalance {machine : Machine} (starts : SemaphoresInitial machine) :
    machine.SemBalance machine.allSem machine.pc where
  conserved sem := by simp [starts.log]
  waited sem task waiting := absurd ((starts.initial.idle task).symm.trans waiting) (by simp)
  bounded := starts.bounded
  limits _ := rfl
  owed sem task := by simp [starts.log, owedOk, starts.initial.user, Pc.waitsIn]
  inside task := by
    rw [starts.initial.user]
    trivial

theorem Machine.SemBalance.inOrder {initial : Nat → LosSemCB} {machine : Machine}
    (balance : machine.SemBalance initial machine.pc) : SemaphoresInOrder initial machine where
  conserved := balance.conserved
  waited sem some := by
    obtain ⟨task, member⟩ := List.exists_mem_of_ne_nil _ some
    exact balance.waited sem task (Sched.view_wait_eq_some_iff.mpr
      ((machine.sched.chains.mem_iff task _).mp member))
  bounded sem := balance.limits sem ▸ balance.bounded sem
  earned sem task := by
    rw [balance.owed sem task]
    exact Nat.le_add_right _ _

/-- The accounts of all semaphores balance in every run that resumes no task that was frozen while
it waited and whose time has passed. -/
theorem semaphores_in_order {start machine : Machine} (starts : SemaphoresInitial start)
    (reached : Reachable Machine.step ResumesInTime (· = start) machine) :
    SemaphoresInOrder start.allSem machine := by
  refine (@reachable_invariant False _ _ (fun machine =>
    machine.SemBalance start.allSem machine.pc) machine ?_ ?_ ?_ reached).1.inOrder
  · rintro machine rfl
    exact ⟨starts.initial, starts.semBalance⟩
  · intro machine action allowed operation made joins
    have kind := Action.onSemaphore_operation allowed.1 made
    cases operation <;> simp [Operation.onSemaphore, Operation.joins] at kind joins
  · exact fun machine action next wellFormed balance meets steps =>
      balance.step wellFormed meets steps

def semMachine : Machine :=
  { sampleMachine with allSem := fun _ => { used := true, maxSemCount := 1 } }

theorem semaphoresInitial_semMachine : SemaphoresInitial semMachine where
  initial := { initial_sampleMachine with }
  log := rfl
  bounded _ := Nat.zero_le _

/-- Task 1 waits for five ticks, is suspended and resumed, and task 2 posts. -/
def semRun : List Action :=
  [.tick false, .switch, .call (.semPend 0 5), .schedule, .call (.taskSuspend 1),
    .call (.taskResume 1), .call (.semPost 0), .schedule, .resume]

theorem semaphores_in_order_sample : ∃ machine,
    execute Machine.step (fun machine action => decide (ResumesInTime machine action)) semMachine
      semRun = some machine ∧ SemaphoresInOrder semMachine.allSem machine := by
  have runs : (execute Machine.step (fun machine action => decide (ResumesInTime machine action))
      semMachine semRun).isSome = true := by decide
  obtain ⟨machine, result⟩ := Option.isSome_iff_exists.mp runs
  exact ⟨machine, result, semaphores_in_order semaphoresInitial_semMachine
    (.of_execute (fun _ _ => of_decide_eq_true) _ (.start rfl) result)⟩

/-- Task 1 waits for five ticks and is suspended while power management is on, and task 2 resumes
it after that time. -/
def lateResumeRun : List Action :=
  [.setPmMode true, .tick false, .switch, .call (.semPend 0 5), .schedule, .call (.taskSuspend 1),
    .elapse 1000, .call (.taskResume 1), .schedule, .resume]

/-- The late resume ends the wait without a unit, and `LOS_SemPend` returns `LOS_OK`. -/
theorem semaphores_out_of_order : ¬∀ machine,
    Reachable Machine.step (fun _ action => action.onSemaphore = true) (· = semMachine) machine →
      SemaphoresInOrder semMachine.allSem machine := by
  have logs : (execute Machine.step (fun _ action => action.onSemaphore) semMachine
      lateResumeRun).map Machine.log = some [.semPendOk 0 1] := by decide
  obtain ⟨machine, result, log⟩ := Option.map_eq_some_iff.mp logs
  intro all
  have earned := (all machine (.of_execute (fun _ _ => id) _ (.start rfl) result)).earned 0 1
  rw [log] at earned
  exact absurd earned (by decide)

end TowerSafe.Kernel
