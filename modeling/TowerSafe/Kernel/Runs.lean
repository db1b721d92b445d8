/-
This file is about runs of the machine: where they start, the rule that carries an invariant
along them, and a machine to start with. A run starts with every task between two calls. The
machine to start with runs the idle task and has all other blocks free; tasks are spawned in it
as `LOS_TaskCreate` does before the scheduler is started.
-/

import TowerSafe.Kernel.Invariant

namespace TowerSafe.Kernel

open Library
open Function (update update_of_ne update_self)

/-! ### The rule of runs -/

/-- A machine whose tasks are all between two calls. -/
structure Initial (machine : Machine) : Prop where
  sound : machine.sched.Sound
  runs : machine.sched.Runs
  runnable : Runnable (machine.sched.status machine.runTask)
  user : ∀ task, machine.pc task = .user
  idle : ∀ task, (machine.sched.view task).wait = none
  onTime : ∀ task, (machine.sched.view task).timeout = false
  saved : ∀ mux, (machine.allMux mux).priority ≤ osTaskPriorityLowest
  interruptCreating : machine.interruptCreating = []
  going : machine.sched.failed = false

theorem Initial.wellFormed {machine : Machine} (initial : Initial machine) (joins : Prop) :
    WellFormed joins machine where
  sound := initial.sound
  runs := initial.runs
  locked _ := initial.runnable
  goesOn _ _ := initial.runnable
  waits task head waiting := absurd ((initial.idle task).symm.trans waiting) (by simp)
  punctual _ task _ late := absurd ((initial.onTime task).symm.trans late) (by simp)
  saved := initial.saved
  fits task := by
    rw [initial.user]
    trivial
  interruptCreating := by
    rw [initial.interruptCreating]
    exact nofun

/-- What holds of the machines a run starts with and survives every step of a machine in order
holds in every machine a run reaches. -/
theorem reachable_invariant {joins : Prop} {condition : Machine → Action → Prop}
    {start holds : Machine → Prop} {machine : Machine}
    (first : ∀ machine, start machine → Initial machine ∧ holds machine)
    (may : ∀ machine action, condition machine action → ∀ operation,
      action.operation = some operation → operation.joins = true → joins)
    (preserved : ∀ machine action next, WellFormed joins machine → holds machine →
      condition machine action → machine.Steps action next → holds next)
    (reached : Reachable Machine.step condition start machine) :
    holds machine ∧ (machine.sched.failed = false → WellFormed joins machine) := by
  refine @Reachable.invariant _ _ _ _ _ _ (fun machine => holds machine ∧
    (machine.sched.failed = false → WellFormed joins machine)) (fun machine initial => ?_) ?_ reached
  · exact ⟨(first machine initial).2, fun _ => (first machine initial).1.wellFormed joins⟩
  · rintro machine action next - ⟨held, ordered⟩ meets result
    obtain ⟨going, steps⟩ := Machine.steps_of_step result
    have wellFormed := ordered going
    exact ⟨preserved machine action next wellFormed held meets steps,
      wellFormed.step (may machine action meets) result⟩

/-! ### A machine to start with -/

/-- All blocks but that of the idle task are free. -/
def freeChains (taskMaxNum idleTaskID : Nat) : Chains ListHead Nat where
  nodes head :=
    if head = .losFreeTask then (List.range taskMaxNum).filter (· ≠ idleTaskID) else []
  home task := if task < taskMaxNum ∧ task ≠ idleTaskID then some .losFreeTask else none
  mem_iff task head := by
    by_cases free : head = .losFreeTask
    · simp [free]
    · by_cases table : task < taskMaxNum ∧ task ≠ idleTaskID
      · simp [free, table, Ne.symm free]
      · simp [free, table]
  nodup head := by
    split
    · exact List.nodup_range.filter _
    · exact List.nodup_nil

/-- The control block of the idle task, which runs. -/
def idleTaskCB : LosTaskCB where
  taskStatus := { running := true, systemTask := true }
  priority := osTaskPriorityLowest

/-- The scheduler runs the idle task, and no other task is there. -/
def idleSched (config : Config) : Sched where
  config := config
  runTask := config.idleTaskID
  deletedTaskID := 0
  losTaskLock := 0
  needSched := false
  cycle := 0
  pmMode := false
  tcb task := if task = config.idleTaskID then idleTaskCB else unusedTaskCB
  chains := freeChains config.taskMaxNum config.idleTaskID
  queueBitmap := 0
  taskSortLink := []
  failed := false

/-- The machine runs the idle task, and no other task is there. -/
def idleMachine (config : Config) : Machine where
  sched := idleSched config
  allSem _ := {}
  allMux _ := {}
  allQueue _ := {}
  allEvent _ := {}
  pc _ := .user
  interruptCreating := []
  log := []

theorem idleSched_tcb (config : Config) : (idleSched config).tcb =
      update (fun _ => unusedTaskCB) config.idleTaskID idleTaskCB := by
  funext task
  by_cases same : task = config.idleTaskID <;> simp [idleSched, same]

theorem idleSched_home (config : Config) (task : Nat) : (idleSched config).home task =
    if task < config.taskMaxNum ∧ task ≠ config.idleTaskID then some .losFreeTask else none :=
  rfl

theorem idleSched_wait (config : Config) (task : Nat) :
    ((idleSched config).view task).wait = none := by
  rw [Sched.view, idleSched_home]
  split <;> rfl

theorem idleSched_sound {config : Config} (table : config.idleTaskID < config.taskMaxNum) :
    (idleSched config).Sound where
  placed task := by
    rw [idleSched_tcb, idleSched_home]
    by_cases idle : task = config.idleTaskID
    · rw [idle, update_self, if_neg fun both => both.2 rfl]
      exact ⟨nofun, fun _ => Nat.le_refl _, fun _ => ⟨rfl, rfl, rfl, rfl, rfl⟩, nofun, nofun, rfl,
        iff_of_false nofun (Nat.not_le.mpr table)⟩
    rw [update_of_ne idle]
    by_cases real : task < config.taskMaxNum
    · rw [if_pos ⟨real, idle⟩]
      exact ⟨nofun, fun _ => Nat.zero_le _, fun same => absurd same idle, fun _ => rfl, rfl, rfl,
        rfl, real⟩
    · rw [if_neg fun both => real both.1]
      exact ⟨nofun, fun _ => Nat.zero_le _, fun same => absurd same idle, fun _ => rfl, nofun, rfl,
        iff_of_true rfl (Nat.not_lt.mp real)⟩
  marked priority _ := by
    refine iff_of_false (by simp [idleSched]) ?_
    rintro ⟨task, linked⟩
    rw [idleSched_home] at linked
    split at linked <;> simp at linked
  idle := table

theorem initial_idleMachine {config : Config} (table : config.idleTaskID < config.taskMaxNum) :
    Initial (idleMachine config) := by
  have status : (idleSched config).status config.idleTaskID =
      { running := true, systemTask := true } := by
    rw [Sched.status, idleSched_tcb, update_self]
    rfl
  refine ⟨idleSched_sound table, ⟨?_, fun _ => ?_⟩, ?_, fun _ => rfl, idleSched_wait config,
    fun task => ?_, fun _ => Nat.zero_le _, rfl, rfl⟩
  · show ((idleSched config).status config.idleTaskID).running = true
    rw [status]
  · show ((idleSched config).status config.idleTaskID).unused = false
    rw [status]
  · show Runnable ((idleSched config).status config.idleTaskID)
    rw [status]
    exact ⟨rfl, rfl, rfl, rfl, rfl, rfl⟩
  · show (((idleSched config).tcb task).view _).timeout = false
    rw [idleSched_tcb]
    by_cases same : task = config.idleTaskID
    · rw [same, update_self]
      rfl
    · rw [update_of_ne same]
      rfl

/-- `LOS_TaskCreate` before the scheduler is started. -/
def Sched.spawn (sched : Sched) (param : TskInitParam) : Sched :=
  match sched.chains.first .losFreeTask with
  | some taskID => (sched.newTask taskID param).osSchedTaskEnQueue taskID
  | none => sched

/-- A machine with one more task. -/
def Machine.spawn (machine : Machine) (param : TskInitParam) : Machine :=
  machine.withSched (machine.sched.spawn param)

theorem Initial.spawn {machine : Machine} (initial : Initial machine) {param : TskInitParam}
    (low : param.usTaskPrio ≤ osTaskPriorityLowest) : Initial (machine.spawn param) := by
  cases found : machine.sched.chains.first .losFreeTask with
  | none =>
    have same : machine.sched.spawn param = machine.sched := by
      rw [Sched.spawn, found]
    rw [Machine.spawn, same]
    exact initial
  | some taskID =>
    have eq : machine.sched.spawn param =
        (machine.sched.newTask taskID param).osSchedTaskEnQueue taskID := by
      rw [Sched.spawn, found]
    have free : machine.sched.home taskID = some .losFreeTask :=
      machine.sched.chains.home_of_first found
    obtain ⟨-, -, unused, real⟩ := free ▸ (initial.sound.placed taskID).place
    have touches : Sched.Touches taskID machine.sched
        ((machine.sched.newTask taskID param).osSchedTaskEnQueue taskID) :=
      (Sched.newTask_touches param).trans (Sched.osSchedTaskEnQueue_touches _ taskID)
    have created := initial.sound.newTask free low
    have home : (machine.sched.newTask taskID param).home taskID = none :=
      update_self _ _ _
    have runTask := congrArg Globals.runTask touches.globals
    have differs : machine.runTask ≠ taskID := by
      rintro same
      exact absurd (initial.runnable.unused.symm.trans (same ▸ unused)) (by simp)
    have view : ((machine.sched.newTask taskID param).osSchedTaskEnQueue taskID).view =
        update machine.sched.view taskID
          ((machine.sched.view taskID).created param.usTaskPrio) :=
      Sched.osSchedTaskEnQueue_view.trans (Sched.newTask_view param)
    rw [Machine.spawn, eq]
    refine ⟨created.enQueue home ?_, touches.runs_of_unused unused real initial.runs, ?_,
      initial.user, fun task => ?_, fun task => ?_, initial.saved, initial.interruptCreating, ?_⟩
    · exact real
    · show Runnable (((machine.sched.newTask taskID param).osSchedTaskEnQueue taskID).status
        ((machine.sched.newTask taskID param).osSchedTaskEnQueue taskID).runTask)
      rw [runTask, touches.status differs]
      exact initial.runnable
    · show (((machine.sched.newTask taskID param).osSchedTaskEnQueue taskID).view task).wait = none
      rw [view]
      by_cases same : task = taskID
      · rw [same, update_self]
        rfl
      · rw [update_of_ne same]
        exact initial.idle task
    · show (((machine.sched.newTask taskID param).osSchedTaskEnQueue taskID).view
        task).timeout = false
      rw [view]
      by_cases same : task = taskID
      · rw [same, update_self]
        rfl
      · rw [update_of_ne same]
        exact initial.onTime task
    · show ((machine.sched.newTask taskID param).osSchedTaskEnQueue taskID).failed = false
      rw [Sched.osSchedTaskEnQueue_failed, home]
      have asleep : ((machine.sched.newTask taskID param).status taskID).ready = false := by
        simp [Sched.newTask, Sched.osNewTaskInit, Sched.status]
      have linked : (machine.sched.newTask taskID param).failed = machine.sched.failed := by
        show (machine.sched.failed || (machine.sched.home taskID).isNone) = _
        rw [free]
        exact Bool.or_false _
      rw [asleep, linked, initial.going]
      simp

/-- A small table of tasks. -/
def sampleConfig : Config where
  taskMaxNum := 5
  idleTaskID := 0
  swtmrTaskID := 5
  semLimit := 2
  muxLimit := 2
  queueLimit := 2
  schedTimeSlice := 100
  schedTimeSliceMin := 10
  sysClock := 10
  tickPerSecond := 1
  sysHeapSize := 4096
  tskDefaultStackSize := 512
  tskMinStackSize := 64

/-- Three tasks that are ready: task 1 is the most urgent one, task 3 the least. -/
def sampleMachine : Machine :=
  (((idleMachine sampleConfig).spawn { usTaskPrio := 10 }).spawn { usTaskPrio := 15 }).spawn
    { usTaskPrio := 20 }

theorem initial_sampleMachine : Initial sampleMachine :=
  (((initial_idleMachine (by decide)).spawn (by decide)).spawn (by decide)).spawn (by decide)

end TowerSafe.Kernel
