/-
This file says what the first part of a call leaves alone: only the creation of a task changes
where a task other than the running one is in its program, and only the deletion of the running
task changes which task runs.
-/

import TowerSafe.Kernel.Runs

namespace TowerSafe.Kernel

open Library

/-! ### Which task runs -/

namespace Sched

variable {sched : Sched} {task : Nat}

theorem osSchedTaskWait_runTask (head : WaitHead) (ticks : Nat) :
    (sched.osSchedTaskWait head ticks).runTask = sched.runTask :=
  congrArg Globals.runTask (osSchedTaskWait_touches ticks).globals

theorem osSchedTaskWake_runTask : (sched.osSchedTaskWake task).runTask = sched.runTask :=
  congrArg Globals.runTask osSchedTaskWake_touches.globals

theorem osSchedResume_runTask : (sched.osSchedResume task).1.runTask = sched.runTask :=
  congrArg Globals.runTask osSchedResume_touches.globals

theorem osSchedSuspend_runTask : (sched.osSchedSuspend task).runTask = sched.runTask :=
  congrArg Globals.runTask osSchedSuspend_touches.globals

end Sched

namespace Machine

variable {machine : Machine} {interrupt : Bool}

/-- A part of a call that leaves alone where the tasks are in their programs and which of them
runs. -/
structure Stays (machine next : Machine) : Prop where
  pc : next.pc = machine.pc
  runTask : next.runTask = machine.runTask

theorem Stays.refl : machine.Stays machine := ⟨rfl, rfl⟩

theorem losSemPend_stays (sem timeout : Nat) :
    machine.Stays (machine.losSemPend interrupt sem timeout).1 := by
  rw [losSemPend]
  split
  · exact .refl
  split
  · exact .refl
  split
  · exact ⟨rfl, rfl⟩
  · split
    · exact .refl
    · exact ⟨rfl, Sched.osSchedTaskWait_runTask _ _⟩

theorem losSemPost_stays (sem : Nat) : machine.Stays (machine.losSemPost sem).1 := by
  rw [losSemPost]
  split
  · exact .refl
  split
  · exact .refl
  split
  · exact .refl
  · split
    · exact ⟨rfl, Sched.osSchedTaskWake_runTask⟩
    · exact ⟨rfl, rfl⟩

theorem losTaskResume_stays (taskID : Nat) : machine.Stays (machine.losTaskResume taskID).1 := by
  rw [losTaskResume]
  split
  · exact .refl
  split
  · exact .refl
  · split
    · exact .refl
    · exact ⟨rfl, Sched.osSchedResume_runTask⟩

theorem losTaskSuspend_stays (taskID : Nat) : machine.Stays (machine.losTaskSuspend taskID).1 := by
  rw [losTaskSuspend]
  split
  · exact .refl
  split
  · exact .refl
  split
  · exact .refl
  split
  · exact .refl
  · split
    · exact .refl
    · exact ⟨rfl, Sched.osSchedSuspend_runTask⟩

theorem Stays.proceed_pc {result : Machine × Next} (stays : machine.Stays result.1) :
    (proceed result).pc = Function.update machine.pc machine.runTask result.2.pc := by
  rw [← stays.pc, ← stays.runTask]
  rfl

end Machine

end TowerSafe.Kernel
