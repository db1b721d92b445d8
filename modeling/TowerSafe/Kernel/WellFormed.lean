/-
This file states the invariant of the whole machine and proves that every step keeps it: the
running task can run unless a switch is due, a task waits in the list its call put it in, and a
task is marked as timed out only inside a call that waits. The last part needs that no task
joins another, since a join does not look at that mark.
-/

import TowerSafe.Kernel.Step
import TowerSafe.Kernel.Settling

namespace TowerSafe.Kernel

open Library

/-! ### The invariant -/

/-- What a call still has to do fits the task that makes it. Whether tasks may join others is
`joins`. -/
def Cont.Fits (config : Config) (joins : Prop) (task : Nat) : Cont → Prop
  | .taskJoin other =>
      joins ∧ other ≠ task ∧ other < config.taskMaxNum ∧ other ≠ config.idleTaskID
  | .taskDetach _ => joins ∧ task ≠ config.idleTaskID
  | _ => True

/-- Where a task is in its program fits the task. -/
def Pc.Fits (config : Config) (joins : Prop) (task : Nat) : Pc → Prop
  | .user => True
  | .creating other => other ≠ task ∧ other < config.taskMaxNum
  | .schedule cont => cont.Fits config joins task
  | .resume cont => cont.Fits config joins task

theorem Cont.Fits.standIn {config : Config} {joins : Prop} {task : Nat} {cont : Cont}
    (table : config.idleTaskID < config.taskMaxNum) (fits : cont.Fits config joins task) :
    cont.Fits config joins config.taskMaxNum := by
  cases cont with
  | taskJoin other => exact ⟨fits.1, Nat.ne_of_lt fits.2.2.1, fits.2.2⟩
  | finish ret => trivial
  | semPend sem => trivial
  | muxPend mux => trivial
  | queueOperate queue operate => trivial
  | eventRead event eventMask mode => trivial
  | taskDetach other => exact ⟨fits.1, Nat.ne_of_gt table⟩

theorem Pc.Fits.standIn {config : Config} {joins : Prop} {task : Nat} {pc : Pc}
    (table : config.idleTaskID < config.taskMaxNum) (fits : pc.Fits config joins task) :
    pc.Fits config joins config.taskMaxNum := by
  cases pc with
  | user => trivial
  | creating other => exact ⟨Nat.ne_of_lt fits.2, fits.2⟩
  | schedule cont => exact Cont.Fits.standIn table fits
  | resume cont => exact Cont.Fits.standIn table fits

/-- The machine is in order. -/
structure WellFormed (joins : Prop) (machine : Machine) : Prop where
  sound : machine.sched.Sound
  runs : machine.sched.Runs
  locked : machine.sched.losTaskLock ≠ 0 →
    Runnable (machine.sched.status machine.runTask)
  goesOn : machine.sched.needSched = false →
    (∀ cont, machine.pc machine.runTask ≠ .schedule cont) →
      Runnable (machine.sched.status machine.runTask)
  waits : ∀ task head, (machine.sched.view task).wait = some head →
    (machine.pc task).waitsIn = some head
  punctual : ¬joins → ∀ task, (machine.sched.view task).unused = false →
    (machine.sched.view task).timeout = true →
      (machine.sched.view task).wait = none ∧ (machine.pc task).waitsIn ≠ none
  saved : ∀ mux, (machine.allMux mux).priority ≤ osTaskPriorityLowest
  fits : ∀ task, (machine.pc task).Fits machine.sched.config joins task
  interruptCreating : ∀ task ∈ machine.interruptCreating,
    task ≠ machine.runTask ∧ task < machine.sched.config.taskMaxNum

/-- A part of a call that begins no wait. -/
structure Machine.Settles (machine next : Machine) : Prop where
  sched : machine.sched.Settles next.sched
  saved : (∀ mux, (machine.allMux mux).priority ≤ osTaskPriorityLowest) →
    ∀ mux, (next.allMux mux).priority ≤ osTaskPriorityLowest
  pc : ∀ task, next.pc task = machine.pc task ∨ next.pc task = .user ∧
    (next.sched.view task).wait = none ∧ (next.sched.view task).timeout = false ∧
      task ≠ machine.runTask
  interruptCreating : next.interruptCreating = machine.interruptCreating

/-- Unless a part of a call ends in `LOS_Schedule`, the running task keeps running, and it can run
after the part if it could before. So it can when the part leaves the scheduler locked. -/
structure Machine.Keeps (machine : Machine) (result : Machine × Next) : Prop where
  runTask : (∀ cont, result.2 ≠ .schedules cont) → result.1.runTask = machine.runTask
  runnable : Runnable (machine.sched.status machine.runTask) →
    (result.1.sched.losTaskLock ≠ 0 ∨ ∀ cont, result.2 ≠ .schedules cont) →
      Runnable (result.1.sched.status result.1.runTask)

/-- A part of a call that begins a wait. -/
structure Machine.Waits (head : WaitHead) (machine next : Machine) : Prop where
  sound : next.sched.Sound
  globals : next.sched.toGlobals = machine.sched.toGlobals
  unlocked : machine.sched.losTaskLock = 0
  runs : machine.sched.Runs → next.sched.Runs
  wait : (next.sched.view machine.runTask).wait = some head
  timeout : (next.sched.view machine.runTask).timeout =
    (machine.sched.view machine.runTask).timeout
  quiet : ∀ task, task ≠ machine.runTask →
    (machine.sched.view task).Quiet (next.sched.view task)
  saved : next.allMux = machine.allMux
  pc : next.pc = machine.pc
  interruptCreating : next.interruptCreating = machine.interruptCreating

variable {joins : Prop} {machine next : Machine} {result : Machine × Next} {head : WaitHead}

theorem Sched.Sound.real_of_runnable {sched : Sched} {task : Nat} (sound : sched.Sound)
    (runnable : Runnable (sched.status task)) : task < sched.config.taskMaxNum :=
  sound.real runnable.unused

section

variable (wellFormed : WellFormed joins machine)
include wellFormed

theorem WellFormed.quiet_punctual (apart : ¬joins) {task : Nat} {view : TaskView}
    (quiet : TaskView.Quiet (machine.sched.view task) view) (created : view.unused = false)
    (late : view.timeout = true) : view.wait = none ∧ (machine.pc task).waitsIn ≠ none := by
  rcases quiet.created created with old | ⟨-, clear⟩
  · rcases quiet.timeout created late with before | ⟨waited, ended⟩
    · obtain ⟨idle, inside⟩ := wellFormed.punctual apart task old before
      exact ⟨quiet.wait.elim (fun kept => kept.trans idle) id, inside⟩
    · obtain ⟨list, waiting⟩ := Option.ne_none_iff_exists'.mp waited
      rw [wellFormed.waits task list waiting]
      exact ⟨ended, by simp⟩
  · exact absurd (clear.symm.trans late) (by simp)

section

variable (settles : machine.Settles next)
include settles

theorem WellFormed.settled_waits {task : Nat} (waiting : (next.sched.view task).wait = some head) :
    (next.pc task).waitsIn = some head := by
  have old : (machine.sched.view task).wait = some head := by
    rcases (settles.sched.quiet task).wait with same | ended
    · rw [← same, waiting]
    · exact absurd (ended.symm.trans waiting) (by simp)
  rcases settles.pc task with same | ⟨-, ended, -⟩
  · rw [same]
    exact wellFormed.waits task head old
  · exact absurd (ended.symm.trans waiting) (by simp)

theorem WellFormed.settled_punctual (apart : ¬joins) {task : Nat}
    (created : (next.sched.view task).unused = false)
    (late : (next.sched.view task).timeout = true) :
    (next.sched.view task).wait = none ∧ (next.pc task).waitsIn ≠ none := by
  have quiet := settles.sched.quiet task
  rcases settles.pc task with same | ⟨-, -, clear, -⟩
  · rw [same]
    exact wellFormed.quiet_punctual apart quiet created late
  · exact absurd (clear.symm.trans late) (by simp)

theorem WellFormed.settled_fits (task : Nat) :
    (next.pc task).Fits next.sched.config joins task := by
  rw [settles.sched.config]
  rcases settles.pc task with same | ⟨same, -⟩
  · rw [same]
    exact wellFormed.fits task
  · rw [same]
    trivial

theorem WellFormed.settled_creating : ∀ task ∈ next.interruptCreating,
      task ≠ next.runTask ∧ task < next.sched.config.taskMaxNum := by
  intro task member
  rw [settles.interruptCreating] at member
  obtain ⟨differs, real⟩ := wellFormed.interruptCreating task member
  rw [settles.sched.config]
  refine ⟨?_, real⟩
  rcases settles.sched.runTask with same | stands
  · rw [Machine.runTask, same]
    exact differs
  · rw [Machine.runTask, stands]
    exact Nat.ne_of_lt real

theorem WellFormed.settled
    (locked : next.sched.losTaskLock ≠ 0 → Runnable (next.sched.status next.runTask))
    (needSched : Bool)
    (goesOn : needSched = false → (∀ cont, next.pc next.runTask ≠ .schedule cont) →
      Runnable (next.sched.status next.runTask)) :
    WellFormed joins (next.withSched { next.sched with needSched := needSched }) where
  sound := settles.sched.sound.globals { next.sched.toGlobals with needSched := needSched } rfl
  runs := ⟨(settles.sched.runs wellFormed.runs).running,
    (settles.sched.runs wellFormed.runs).created⟩
  locked := locked
  goesOn := goesOn
  waits _ _ := wellFormed.settled_waits settles
  punctual apart _ := wellFormed.settled_punctual settles apart
  saved := settles.saved wellFormed.saved
  fits task := wellFormed.settled_fits settles task
  interruptCreating task := wellFormed.settled_creating settles task

end

theorem WellFormed.handle (settles : machine.Settles result.1) (keeps : machine.Keeps result)
    (creates : ∀ task, result.2 = .creates task →
      task ≠ machine.runTask ∧ task < machine.sched.config.taskMaxNum) :
    WellFormed joins (Machine.handle result) := by
  obtain ⟨after, ending⟩ := result
  have locked : after.sched.losTaskLock ≠ 0 → Runnable (after.sched.status after.runTask) :=
    fun lock => keeps.runnable (wellFormed.locked (settles.sched.lock lock)) (.inl lock)
  have stays : (∀ cont, ending ≠ .schedules cont) → WellFormed joins after := by
    intro returns
    have same := keeps.runTask returns
    refine wellFormed.settled settles locked after.sched.needSched fun calm awake => ?_
    refine keeps.runnable (wellFormed.goesOn (settles.sched.needSched ▸ calm) fun cont inside => ?_)
      (.inr returns)
    rcases settles.pc machine.runTask with kept | ⟨-, -, -, other⟩
    · exact awake cont (by rw [same, kept, inside])
    · exact other rfl
  cases ending with
  | returns ret => exact stays nofun
  | continues cont => exact stays nofun
  | creates task =>
    have before := stays nofun
    have same : after.runTask = machine.runTask := keeps.runTask nofun
    exact { before with
      interruptCreating := fun one member => by
        rcases List.mem_cons.mp member with new | old
        · have created := creates task rfl
          rw [new]
          exact ⟨same ▸ created.1, settles.sched.config ▸ created.2⟩
        · exact before.interruptCreating one old }
  | schedules cont =>
    show WellFormed joins after.requestSwitch
    rw [Machine.requestSwitch]
    split
    · exact wellFormed.settled settles locked true nofun
    · rename_i lock
      exact wellFormed.settled settles locked after.sched.needSched fun _ _ => locked lock

theorem WellFormed.proceed (runnable : Runnable (machine.sched.status machine.runTask))
    (settles : machine.Settles result.1) (keeps : machine.Keeps result)
    (fits : result.2.pc.Fits machine.sched.config joins machine.runTask)
    (onTime : ¬joins → (result.1.sched.view machine.runTask).unused = false →
      (result.1.sched.view machine.runTask).timeout = false) :
    WellFormed joins (Machine.proceed result) := by
  obtain ⟨after, ending⟩ := result
  have beyond : after.runTask ≠ machine.runTask →
      after.sched.config.taskMaxNum ≤ after.runTask := by
    intro differs
    have stands := settles.sched.runTask.resolve_left differs
    exact Nat.le_of_eq (settles.sched.config.symm ▸ (stands : after.runTask = _).symm)
  have goes : (∀ cont, ending ≠ .schedules cont) → Runnable (after.sched.status after.runTask) :=
    fun returns => keeps.runnable runnable (.inr returns)
  have idle : (after.sched.view after.runTask).wait = none := by
    by_cases same : after.runTask = machine.runTask
    · rcases (settles.sched.quiet after.runTask).wait with kept | ended
      · rw [kept, same]
        exact wellFormed.sound.wait_of_runnable runnable
      · exact ended
    · rw [Sched.view, settles.sched.sound.home_beyond (beyond same)]
      rfl
  have pc_of_ne : ∀ task, task ≠ after.runTask →
      (Machine.proceed (after, ending)).pc task = after.pc task :=
    fun task differs => Function.update_of_ne differs _ _
  have pc_self : (Machine.proceed (after, ending)).pc after.runTask = ending.pc :=
    Function.update_self _ _ _
  refine ⟨settles.sched.sound, settles.sched.runs wellFormed.runs,
    fun lock => keeps.runnable runnable (.inl lock), fun _ awake => goes fun cont ends => ?_,
    fun task head waiting => ?_, fun apart task created late => ?_,
    settles.saved wellFormed.saved, fun task => ?_, fun task => ?_⟩
  · exact awake cont (by rw [show (Machine.proceed (after, ending)).runTask = after.runTask from
      rfl, pc_self, ends]; rfl)
  · by_cases same : task = after.runTask
    · subst same
      exact absurd (idle.symm.trans waiting) (by simp)
    · rw [pc_of_ne task same]
      exact wellFormed.settled_waits settles waiting
  · by_cases same : task = after.runTask
    · subst same
      by_cases stays : after.runTask = machine.runTask
      · exact absurd ((onTime apart (stays ▸ created)).symm.trans (stays ▸ late)) (by simp)
      have unused : (after.sched.view after.runTask).unused = true := by
        have place := (settles.sched.sound.placed after.runTask).place
        rw [settles.sched.sound.home_beyond (beyond stays)] at place
        exact place.2.2.mpr (beyond stays)
      exact absurd (unused.symm.trans created) (by simp)
    · rw [pc_of_ne task same]
      exact wellFormed.settled_punctual settles apart created late
  · by_cases same : task = after.runTask
    · subst same
      rw [pc_self]
      show ending.pc.Fits after.sched.config joins after.runTask
      rw [settles.sched.config]
      rcases settles.sched.runTask with stays | stands
      · rw [Machine.runTask, stays]
        exact fits
      · rw [Machine.runTask, stands]
        exact fits.standIn wellFormed.sound.idle
    · rw [pc_of_ne task same]
      exact wellFormed.settled_fits settles task
  · exact wellFormed.settled_creating settles task

theorem WellFormed.proceed_waits {cont : Cont}
    (waits : machine.Waits head next) (inside : cont.waitsIn = some head)
    (fits : cont.Fits machine.sched.config joins machine.runTask)
    (onTime : ¬joins → (machine.sched.view machine.runTask).timeout = false) :
    WellFormed joins (Machine.proceed (next, .schedules cont)) := by
  have same : next.runTask = machine.runTask := congrArg Globals.runTask waits.globals
  have config : next.sched.config = machine.sched.config := congrArg Globals.config waits.globals
  have unlocked : next.sched.losTaskLock = 0 :=
    (congrArg Globals.losTaskLock waits.globals).trans waits.unlocked
  have pc_of_ne : ∀ task, task ≠ machine.runTask →
      (Machine.proceed (next, .schedules cont)).pc task = machine.pc task := by
    intro task differs
    rw [← waits.pc]
    exact Function.update_of_ne (same.symm ▸ differs) _ _
  have pc_self : (Machine.proceed (next, .schedules cont)).pc machine.runTask = .schedule cont := by
    rw [← same]
    exact Function.update_self _ _ _
  refine ⟨waits.sound, waits.runs wellFormed.runs, fun lock => absurd unlocked lock,
    fun _ awake => ?_, fun task head waiting => ?_, fun apart task created late => ?_, ?_,
    fun task => ?_, fun task member => ?_⟩
  · exact absurd ((congrArg _ same).trans pc_self) (awake cont)
  · by_cases its : task = machine.runTask
    · subst its
      rw [pc_self, ← waits.wait.symm.trans waiting]
      exact inside
    rw [pc_of_ne task its]
    refine wellFormed.waits task head ?_
    rcases (waits.quiet task its).wait with kept | ended
    · rw [← kept]
      exact waiting
    · exact absurd (ended.symm.trans waiting) (by simp)
  · by_cases its : task = machine.runTask
    · subst its
      exact absurd ((waits.timeout.trans (onTime apart)).symm.trans late) (by simp)
    rw [pc_of_ne task its]
    have quiet := waits.quiet task its
    exact wellFormed.quiet_punctual apart quiet created late
  · show ∀ mux, (next.allMux mux).priority ≤ osTaskPriorityLowest
    rw [waits.saved]
    exact wellFormed.saved
  · show ((Machine.proceed (next, .schedules cont)).pc task).Fits next.sched.config joins task
    rw [config]
    by_cases its : task = machine.runTask
    · subst its
      rw [pc_self]
      exact fits
    · rw [pc_of_ne task its]
      exact wellFormed.fits task
  · have member' : task ∈ next.interruptCreating := member
    rw [waits.interruptCreating] at member'
    show task ≠ next.runTask ∧ task < next.sched.config.taskMaxNum
    rw [same, config]
    exact wellFormed.interruptCreating task member'

end

/-! ### Going on after a part of a call -/

theorem Machine.requestSwitch_view (machine : Machine) :
    machine.requestSwitch.sched.view = machine.sched.view := by
  rw [requestSwitch]
  split <;> rfl

theorem Machine.handle_view (result : Machine × Next) :
    (handle result).sched.view = result.1.sched.view := by
  obtain ⟨after, ending⟩ := result
  cases ending with
  | returns ret => rfl
  | schedules cont => exact after.requestSwitch_view
  | continues cont => rfl
  | creates taskID => rfl

/-- What a machine has besides its tasks: the control blocks of the interprocess communication,
and the log. -/
def Machine.objects (machine : Machine) : (Nat → LosSemCB) × (Nat → LosMuxCB) ×
    (Nat → LosQueueCB) × (Nat → EventCB) × List Event :=
  (machine.allSem, machine.allMux, machine.allQueue, machine.allEvent, machine.log)

theorem Machine.requestSwitch_objects (machine : Machine) :
    machine.requestSwitch.objects = machine.objects := by
  rw [requestSwitch]
  split <;> rfl

theorem Machine.handle_objects (result : Machine × Next) :
    (handle result).objects = result.1.objects := by
  obtain ⟨after, ending⟩ := result
  cases ending with
  | returns ret => rfl
  | schedules cont => exact after.requestSwitch_objects
  | continues cont => rfl
  | creates taskID => rfl

theorem Machine.handle_pc (result : Machine × Next) : (handle result).pc = result.1.pc := by
  obtain ⟨after, ending⟩ := result
  cases ending with
  | returns ret => rfl
  | schedules cont =>
    show after.requestSwitch.pc = after.pc
    rw [requestSwitch]
    split <;> rfl
  | continues cont => rfl
  | creates taskID => rfl

theorem Machine.losSchedule_objects (machine : Machine) :
    machine.losSchedule.objects = machine.objects := by
  rw [losSchedule]
  split <;> rfl

theorem Machine.losSchedule_pc (machine : Machine) : machine.losSchedule.pc = machine.pc := by
  rw [losSchedule]
  split <;> rfl

theorem Machine.allSem_of_objects {first second : Machine} (same : first.objects = second.objects) :
    first.allSem = second.allSem :=
  congrArg (·.1) same

theorem Machine.allEvent_of_objects {first second : Machine}
    (same : first.objects = second.objects) : first.allEvent = second.allEvent :=
  congrArg (·.2.2.2.1) same

theorem Machine.log_of_objects {first second : Machine} (same : first.objects = second.objects) :
    first.log = second.log :=
  congrArg (·.2.2.2.2) same

theorem Machine.losSchedule_view (machine : Machine) :
    machine.losSchedule.sched.view = machine.sched.view := by
  rw [losSchedule]
  split
  · exact Sched.osSchedTaskSwitch_view
  · rfl

/-! ### The calls -/

/-- What a first part of a call comes to, or a later one. -/
inductive Machine.Enters (joins : Prop) (machine : Machine) (interrupt : Bool) :
    Machine × Next → Prop
  | settles {next : Machine} {ending : Next} (settles : machine.Settles next)
      (keeps : machine.Keeps (next, ending))
      (fits : ending.pc.Fits machine.sched.config joins machine.runTask) :
      Machine.Enters joins machine interrupt (next, ending)
  | waits {next : Machine} {cont : Cont} {head : WaitHead} (calls : interrupt = false)
      (waits : machine.Waits head next) (inside : cont.waitsIn = some head)
      (fits : cont.Fits machine.sched.config joins machine.runTask) :
      Machine.Enters joins machine interrupt (next, .schedules cont)

section Calls

variable {interrupt : Bool}

theorem Machine.Enters.unchanged {ending : Next} (wellFormed : WellFormed joins machine)
    (sched : next.sched = machine.sched) (saved : next.allMux = machine.allMux)
    (pc : next.pc = machine.pc) (creating : next.interruptCreating = machine.interruptCreating)
    (fits : ending.pc.Fits machine.sched.config joins machine.runTask) :
    Machine.Enters joins machine interrupt (next, ending) := by
  refine .settles ⟨?_, ?_, fun task => .inl (congrFun pc task), creating⟩
    ⟨fun _ => ?_, fun runnable _ => ?_⟩
    fits
  · rw [sched]
    exact .refl wellFormed.sound
  · rw [saved]
    exact id
  · rw [Machine.runTask, sched]
  · rw [Machine.runTask, sched]
    exact runnable

theorem Machine.Enters.of_sched {ending : Next} (settles : machine.sched.Settles next.sched)
    (saved : (∀ mux, (machine.allMux mux).priority ≤ osTaskPriorityLowest) →
      ∀ mux, (next.allMux mux).priority ≤ osTaskPriorityLowest)
    (pc : next.pc = machine.pc) (creating : next.interruptCreating = machine.interruptCreating)
    (runTask : next.runTask = machine.runTask)
    (kept : Runnable (machine.sched.status machine.runTask) →
      Runnable (next.sched.status machine.runTask))
    (fits : ending.pc.Fits machine.sched.config joins machine.runTask) :
    Machine.Enters joins machine interrupt (next, ending) := by
  refine .settles ⟨settles, saved, fun task => .inl (congrFun pc task), creating⟩
    ⟨fun _ => runTask, fun runnable _ => ?_⟩ fits
  rw [runTask]
  exact kept runnable

theorem Machine.Waits.of_taskWait {base : Sched} (settles : machine.sched.Settles base)
    (globals : base.toGlobals = machine.sched.toGlobals)
    (timeout : (base.view machine.runTask).timeout = (machine.sched.view machine.runTask).timeout)
    (runnable : Runnable (base.status machine.runTask))
    (real : machine.runTask ≠ machine.sched.config.idleTaskID)
    (unlocked : machine.sched.losTaskLock = 0) (ticks : Nat)
    (sched : next.sched = base.osSchedTaskWait head ticks) (saved : next.allMux = machine.allMux)
    (pc : next.pc = machine.pc) (creating : next.interruptCreating = machine.interruptCreating) :
    machine.Waits head next := by
  have runTask : base.runTask = machine.runTask := congrArg Globals.runTask globals
  have running : Runnable (base.status base.runTask) := runTask ▸ runnable
  have free := settles.sound.home_of_runnable running
  have view := @Sched.osSchedTaskWait_view base head ticks free
  have touches := @Sched.osSchedTaskWait_touches base head ticks
  rw [runTask] at view touches
  refine ⟨?_, ?_, unlocked, fun before => ?_, ?_, ?_, fun task differs => ?_, saved, pc, creating⟩
  · rw [sched]
    refine settles.sound.taskWait running ?_ ticks
    rw [runTask, settles.config]
    exact real
  · rw [sched, touches.globals, globals]
  · rw [sched]
    refine touches.runs ?_ ?_ (settles.runs before)
    · exact Sched.running_of_flags (Sched.osSchedTaskWait_flags ticks)
    · rw [view, Function.update_self]
      exact id
  · rw [sched, view, Function.update_self]
    rfl
  · rw [sched, view, Function.update_self]
    exact timeout
  · rw [sched, view, Function.update_of_ne differs]
    exact settles.quiet task

end Calls

end TowerSafe.Kernel
