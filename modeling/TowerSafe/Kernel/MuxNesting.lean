/-
This file keeps the accounts of mutexes over whole runs of all calls. As long as a task has pended
more often than it has posted, the mutex is its own and nobody else gets it. The nesting is
counted in 16 bits: the accounts are right as long as no task nests its pends 65536 deep, and that
many pends in a row leave the mutex to whoever asks next.
-/

import TowerSafe.Kernel.Runs

namespace TowerSafe.Kernel

open Library

/-! ### The accounts -/

def LosMuxCB.depth (muxCB : LosMuxCB) (task : Nat) : Nat :=
  if muxCB.owner = some task then muxCB.muxCount else 0

/-- An event is about who has a mutex. -/
def Event.onMux : Event → Bool
  | muxGranted _ _ => true
  | muxPosted _ _ => true
  | _ => false

namespace Machine

variable {machine next : Machine} {interrupt : Bool}

def muxes (machine : Machine) : (Nat → LosMuxCB) × List Event :=
  (machine.allMux, machine.log.filter Event.onMux)

/-- The nesting of every mutex is what its pends and posts leave. -/
def MuxBalance (muxes : (Nat → LosMuxCB) × List Event) : Prop :=
  ∀ mux task, muxes.2.count (.muxGranted mux task) =
    muxes.2.count (.muxPosted mux task) + (muxes.1 mux).depth task

theorem MuxBalance.update {allMux : Nat → LosMuxCB} {log : List Event}
    (balance : MuxBalance (allMux, log)) {mux : Nat} {muxCB : LosMuxCB} (events : List Event)
    (its : ∀ task, events.count (.muxGranted mux task) + (allMux mux).depth task =
      events.count (.muxPosted mux task) + muxCB.depth task)
    (others : ∀ other task, other ≠ mux → events.count (.muxGranted other task) = 0 ∧
      events.count (.muxPosted other task) = 0) :
    MuxBalance (Function.update allMux mux muxCB, events ++ log) := by
  intro other task
  have before := balance other task
  simp only [List.count_append] at before ⊢
  by_cases same : other = mux
  · subst same
    have change := its task
    rw [Function.update_self]
    omega
  · obtain ⟨granted, posted⟩ := others other task same
    rw [Function.update_of_ne same, granted, posted]
    omega

def pendsOn : Action → Option Nat
  | .call (.muxPend mux _) => some mux
  | _ => none

/-- The condition on a step: no task pends on a mutex that it has nested as deep as 16 bits can
count. -/
def NestsWithin (machine : Machine) (action : Action) : Prop :=
  ∀ mux ∈ pendsOn action, (machine.allMux mux).owner = some machine.runTask →
    (machine.allMux mux).muxCount < 2 ^ 16 - 1

instance (machine : Machine) (action : Action) : Decidable (NestsWithin machine action) :=
  inferInstanceAs (Decidable (∀ mux ∈ pendsOn action, _ → _))

theorem MuxBalance.muxPend (balance : MuxBalance machine.muxes) {mux : Nat} (timeout : Nat)
    (shallow : interrupt = false → (machine.allMux mux).owner = some machine.runTask →
      (machine.allMux mux).muxCount < 2 ^ 16 - 1) :
    MuxBalance (machine.losMuxPend interrupt mux timeout).1.muxes := by
  rw [losMuxPend]
  split
  · exact balance
  split
  · exact balance
  rename_i valid
  have task : interrupt = false := by
    cases interrupt with
    | false => rfl
    | true =>
      rw [osMuxValidCheck] at valid
      split at valid <;> exact absurd valid (by simp)
  split
  · rename_i unlocked
    refine MuxBalance.update balance [.muxGranted mux machine.runTask]
      (fun task => ?_) fun other task differs => ?_
    · by_cases its : task = machine.runTask
      · simp [LosMuxCB.depth, unlocked, its]
      · simp [LosMuxCB.depth, unlocked, Ne.symm its]
    · simp [Ne.symm differs]
  · split
    · rename_i mine
      have fits := Nat.mod_eq_of_lt (a := (machine.allMux mux).muxCount + 1)
        (Nat.add_lt_of_lt_sub (shallow task mine))
      refine MuxBalance.update balance [.muxGranted mux machine.runTask]
        (fun task => ?_) fun other task differs => ?_
      · by_cases its : task = machine.runTask
        · simp [LosMuxCB.depth, mine, its]
          omega
        · simp [LosMuxCB.depth, mine, Ne.symm its]
      · simp [Ne.symm differs]
    · split <;> exact balance

theorem MuxBalance.muxPost (balance : MuxBalance machine.muxes) (mux : Nat) :
    MuxBalance (machine.losMuxPost interrupt mux).1.muxes := by
  rw [losMuxPost]
  split
  · exact balance
  split
  · exact balance
  split
  · exact balance
  split
  · exact balance
  rename_i held
  obtain ⟨locked, mine⟩ := not_or.mp held
  rw [not_not] at mine
  split
  · refine MuxBalance.update balance [.muxPosted mux machine.runTask]
      (fun task => ?_) fun other task differs => ?_
    · by_cases its : task = machine.runTask
      · simp [LosMuxCB.depth, mine, its]
        omega
      · simp [LosMuxCB.depth, mine, Ne.symm its]
    · simp [Ne.symm differs]
  · have once : (machine.allMux mux).muxCount = 1 := by omega
    simp only
    split
    · rename_i resumedTask found
      refine MuxBalance.update balance [.muxGranted mux resumedTask,
        .muxPosted mux machine.runTask] (fun task => ?_) fun other task differs => ?_
      · by_cases its : machine.runTask = task <;> by_cases next : resumedTask = task <;>
          simp [LosMuxCB.depth, mine, once, its, next]
      · simp [Ne.symm differs]
    · refine MuxBalance.update balance [.muxPosted mux machine.runTask]
        (fun task => ?_) fun other task differs => ?_
      · by_cases its : machine.runTask = task <;> simp [LosMuxCB.depth, mine, once, its]
      · simp [Ne.symm differs]

/-! ### The other calls -/

theorem muxes_createTask {param : TskInitParam} {created : Machine} {taskID : Nat}
    (result : machine.createTask param = .ok (created, taskID)) :
    created.muxes = machine.muxes := by
  rw [createTask] at result
  split at result
  · cases result
  split at result
  · cases result
  split at result
  · cases result
  · cases result
    rfl

theorem muxes_wakeOtherDirection (queue : Nat) (readWrite : ReadWrite) :
    (machine.wakeOtherDirection queue readWrite).1.muxes = machine.muxes := by
  rw [wakeOtherDirection]
  split <;> rfl

theorem muxes_osQueueBufferOperate (queue : Nat) (operate : QueueOperate) :
    (machine.osQueueBufferOperate queue operate).muxes = machine.muxes := by
  cases operate <;> rfl

theorem muxes_enter {operation : Operation} (pend : ∀ mux timeout, operation ≠ .muxPend mux timeout)
    (post : ∀ mux, operation ≠ .muxPost mux) :
    (machine.enter interrupt operation).1.muxes = machine.muxes := by
  cases operation with
  | muxPend mux timeout => exact absurd rfl (pend mux timeout)
  | muxPost mux => exact absurd rfl (post mux)
  | semPend sem timeout =>
    rw [enter, losSemPend]
    repeat' split
    all_goals rfl
  | semPost sem =>
    rw [enter, losSemPost]
    repeat' split
    all_goals rfl
  | eventRead event eventMask mode timeOut =>
    rw [enter, losEventRead]
    split
    · rfl
    split
    · rfl
    split
    · rfl
    · simp only
      repeat' split
      all_goals rfl
  | eventWrite event events =>
    rw [enter, losEventWrite]
    split <;> rfl
  | eventClear event eventMask => rfl
  | queueCopy queue operate timeOut =>
    rw [enter, losQueueCopy]
    split
    · rfl
    rw [osQueueOperate]
    split
    · rfl
    split
    · repeat' split
      all_goals rfl
    · rw [muxes_wakeOtherDirection, muxes_osQueueBufferOperate]
      rfl
  | queueDelete queue memFree =>
    rw [enter, losQueueDelete]
    repeat' split
    all_goals rfl
  | taskCreateOnly param =>
    rw [enter, losTaskCreateOnly]
    split
    · rfl
    · exact muxes_createTask ‹_›
  | taskCreate param =>
    rw [enter, losTaskCreate]
    split
    · rfl
    · exact muxes_createTask ‹_›
  | taskResume taskID =>
    rw [enter, losTaskResume]
    repeat' split
    all_goals rfl
  | taskSuspend taskID =>
    rw [enter, losTaskSuspend]
    repeat' split
    all_goals rfl
  | taskDelete taskID =>
    rw [enter, losTaskDelete]
    repeat' split
    all_goals rfl
  | taskJoin taskID =>
    rw [enter, losTaskJoin]
    repeat' split
    all_goals rfl
  | taskDetach taskID =>
    rw [enter, losTaskDetach]
    repeat' split
    all_goals rfl
  | taskYield => rfl
  | taskDelay tick =>
    rw [enter, losTaskDelay]
    repeat' split
    all_goals rfl
  | taskPriSet taskID taskPrio =>
    rw [enter, losTaskPriSet]
    repeat' split
    all_goals rfl
  | taskLock => rfl
  | taskUnlock =>
    rw [enter, losTaskUnlock]
    split <;> rfl

theorem muxes_leave (cont : Cont) : (machine.leave cont).1.muxes = machine.muxes := by
  cases cont with
  | finish ret => rfl
  | semPend sem =>
    rw [leave, losSemPendResumed]
    split <;> rfl
  | muxPend mux =>
    rw [leave, losMuxPendResumed]
    split <;> rfl
  | queueOperate queue operate =>
    rw [leave, osQueueOperateResumed]
    split
    · rfl
    · rw [muxes_wakeOtherDirection, muxes_osQueueBufferOperate]
  | eventRead event eventMask mode =>
    rw [leave, losEventReadResumed]
    split <;> rfl
  | taskJoin taskID => rfl
  | taskDetach taskID => exact @muxes_enter machine false (.taskJoin taskID) (by simp) (by simp)

theorem muxes_of_objects (same : next.objects = machine.objects) : next.muxes = machine.muxes := by
  rw [muxes, log_of_objects same]
  exact congrArg (·, _) (congrArg (·.2.1) same)

theorem MuxBalance.enter (balance : MuxBalance machine.muxes) {operation : Operation}
    (shallow : ∀ mux timeout, operation = .muxPend mux timeout → interrupt = false →
      (machine.allMux mux).owner = some machine.runTask →
        (machine.allMux mux).muxCount < 2 ^ 16 - 1) :
    MuxBalance (machine.enter interrupt operation).1.muxes := by
  by_cases pend : ∃ mux timeout, operation = .muxPend mux timeout
  · obtain ⟨mux, timeout, rfl⟩ := pend
    exact balance.muxPend timeout (shallow mux timeout rfl)
  by_cases post : ∃ mux, operation = .muxPost mux
  · obtain ⟨mux, rfl⟩ := post
    exact balance.muxPost mux
  · rw [muxes_enter (fun mux timeout same => pend ⟨mux, timeout, same⟩)
      fun mux same => post ⟨mux, same⟩]
    exact balance

theorem MuxBalance.step (balance : MuxBalance machine.muxes) {action : Action}
    (meets : NestsWithin machine action) (steps : machine.Steps action next) :
    MuxBalance next.muxes := by
  cases steps with
  | call goes inside real =>
    exact balance.enter fun mux timeout same _ => meets mux (by rw [same]; rfl)
  | schedule goes inside =>
    rw [muxes_of_objects (losSchedule_objects _)]
    exact balance
  | resume goes inside =>
    show MuxBalance (machine.leave _).1.muxes
    rw [muxes_leave]
    exact balance
  | enqueue goes inside => exact balance
  | interrupt may =>
    rw [muxes_of_objects (handle_objects _)]
    exact balance.enter fun _ _ _ task => absurd task (by simp)
  | interruptEnqueue member =>
    rw [muxes_of_objects (requestSwitch_objects _)]
    exact balance
  | switch due last =>
    rw [muxes_of_objects (losSchedule_objects _)]
    exact balance
  | tick => exact balance
  | elapse => exact balance
  | setPmMode => exact balance
  | recycle => exact balance

end Machine

/-! ### Runs -/

/-- What the run above comes to, after more pends of task 1 in a row. -/
structure Nested (depth : Nat) (machine : Machine) : Prop where
  goes : machine.goesOn = true
  inside : machine.pc 1 = .user
  runs : machine.runTask = 1
  idle : machine.sched.config.idleTaskID = 0
  limit : machine.sched.config.muxLimit = 2
  unlocked : machine.sched.losTaskLock = 0
  status : (machine.sched.status 1).systemTask = false
  priority : (machine.sched.tcb 1).priority = 10
  waiter : machine.sched.firstWaiter (.muxList 0) = some 2
  muxCB : machine.allMux 0 = ⟨true, depth % 2 ^ 16, some 1, 10⟩
  log : machine.log = (List.replicate depth [.muxPendOk 0 1, .muxGranted 0 1]).flatten

namespace Nested

variable {depth : Nat} {machine : Machine}

theorem step (nested : Nested depth machine) (operation : Operation) :
    machine.step (.call operation) = some (Machine.proceed (machine.enter false operation)) := by
  obtain ⟨going, -, -⟩ := Machine.goesOn_iff.mp nested.goes
  have real : machine.runTask ≠ machine.sched.config.idleTaskID := by
    rw [nested.runs, nested.idle]
    exact Nat.one_ne_zero
  rw [Machine.step.eq_def, going, nested.goes]
  show Machine.runStep machine (.call operation) (machine.pc machine.runTask) = _
  rw [nested.runs, nested.inside]
  exact if_neg real

theorem pend (nested : Nested depth machine) : ∃ next,
    machine.step (.call (.muxPend 0 0)) = some next ∧ Nested (depth + 1) next := by
  have valid : machine.osMuxValidCheck false 0 = none := by
    simp [Machine.osMuxValidCheck, nested.muxCB, nested.unlocked, nested.runs, nested.status]
  have taken : machine.losMuxPend false 0 0 =
      (((machine.modifyMux 0 fun _ => ⟨true, (depth + 1) % 2 ^ 16, some 1, 10⟩).record
        (.muxGranted 0 1)).record (.muxPendOk 0 1), .returns .ok) := by
    rw [Machine.losMuxPend, if_neg (by rw [nested.limit]; decide), valid, Machine.modifyMux,
      Machine.modifyMux, Machine.modifyMux, nested.muxCB, nested.runs, nested.priority]
    by_cases wrapped : depth % 2 ^ 16 = 0
    · have first : (depth + 1) % 2 ^ 16 = depth % 2 ^ 16 + 1 := by omega
      simp only [if_pos wrapped, first]
    · have more : (depth % 2 ^ 16 + 1) % 2 ^ 16 = (depth + 1) % 2 ^ 16 := by omega
      simp only [if_neg wrapped, if_true, more]
  refine ⟨_, nested.step _, ?_⟩
  rw [Machine.enter, taken]
  refine { nested with inside := ?_, muxCB := ?_, log := ?_ }
  · exact (congrArg (Function.update machine.pc · Pc.user 1) nested.runs).trans
      (Function.update_self ..)
  · exact Function.update_self 0 (_ : LosMuxCB) machine.allMux
  · rw [List.replicate_succ, List.flatten_cons, ← nested.log]
    rfl

theorem deeper (nested : Nested 1 machine) {condition : Machine → Action → Prop}
    {start : Machine → Prop} (may : ∀ machine, condition machine (.call (.muxPend 0 0)))
    (reached : Reachable Machine.step condition start machine) (more : Nat) :
    ∃ next, Reachable Machine.step condition start next ∧ Nested (1 + more) next := by
  induction more with
  | zero => exact ⟨machine, reached, nested⟩
  | succ more hypothesis =>
    obtain ⟨before, comes, deep⟩ := hypothesis
    obtain ⟨next, result, deeper⟩ := deep.pend
    exact ⟨next, comes.step (may before) result, deeper⟩

theorem post (nested : Nested (2 ^ 16 + 1) machine) : ∃ next,
    machine.step (.call (.muxPost 0)) = some next ∧
      next.log = .muxGranted 0 2 :: .muxPosted 0 1 :: machine.log := by
  refine ⟨_, nested.step _, ?_⟩
  have kept : machine.restoreOwner 1 10 = machine.sched := by
    rw [Machine.restoreOwner, if_neg (not_not.mpr nested.priority)]
  rw [Machine.enter, Machine.losMuxPost, if_neg (by rw [nested.limit]; decide), nested.muxCB,
    nested.runs, kept]
  simp only [nested.waiter]
  rfl

end Nested

end TowerSafe.Kernel
