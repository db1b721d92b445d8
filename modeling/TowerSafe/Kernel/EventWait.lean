/-
This file proves that no event wake-up is lost: in every state of every run of reads, writes and
clears with timeouts, no task in the list of an event waits for what the bits of the event
already satisfy. Bits are only ever cleared while readers wait, but for a write, and a write
looks at every reader in the list.
-/

import TowerSafe.Kernel.Runs

namespace TowerSafe.Kernel

open Library
open Function (update update_of_ne update_self)

/-! ### Bits and conditions -/

/-- The bits of an event satisfy what a reader waits for: one of its bits, or all of them. -/
def Satisfied (eventID eventMask mode : BitVec 32) : Prop :=
  (mode &&& Machine.losWaitmodeOr ≠ 0 ∧ eventID &&& eventMask ≠ 0) ∨
    (mode &&& Machine.losWaitmodeAnd ≠ 0 ∧ eventID &&& eventMask = eventMask)

instance (eventID eventMask mode : BitVec 32) : Decidable (Satisfied eventID eventMask mode) :=
  inferInstanceAs (Decidable (_ ∨ _))

variable {eventID eventMask mode : BitVec 32}

theorem Satisfied.of_and {kept : BitVec 32}
    (satisfied : Satisfied (eventID &&& kept) eventMask mode) :
    Satisfied eventID eventMask mode := by
  have swap : eventID &&& kept &&& eventMask = eventID &&& eventMask &&& kept := by
    rw [BitVec.and_assoc, BitVec.and_comm kept, ← BitVec.and_assoc]
  rw [Satisfied, swap] at satisfied
  rcases satisfied with ⟨or, some⟩ | ⟨and, all⟩
  · refine .inl ⟨or, fun none => some ?_⟩
    rw [none]
    exact BitVec.zero_and
  refine .inr ⟨and, ?_⟩
  calc eventID &&& eventMask = eventID &&& (eventID &&& eventMask &&& kept) := by rw [all]
    _ = eventID &&& eventMask &&& kept := by
      rw [← BitVec.and_assoc, ← BitVec.and_assoc, BitVec.and_self]
    _ = eventMask := all

theorem not_satisfied_or {events : BitVec 32} {taskCB : LosTaskCB}
    (asleep : ¬Satisfied eventID taskCB.eventMask taskCB.eventMode)
    (passed : Machine.wakesReader taskCB events (eventID ||| events) = false) :
    ¬Satisfied (eventID ||| events) taskCB.eventMask taskCB.eventMode := by
  rw [Satisfied, not_or] at asleep
  simp only [Machine.wakesReader, Bool.or_eq_false_iff, Bool.and_eq_false_iff,
    decide_eq_false_iff_not] at passed
  rintro (⟨or, some⟩ | ⟨and, all⟩)
  · have old : eventID &&& taskCB.eventMask = 0 := by
      by_contra some
      exact asleep.1 ⟨or, some⟩
    have new : taskCB.eventMask &&& events = 0 := by
      by_contra some
      rcases passed.1 with off | off
      · exact off or
      · exact off some
    refine some ?_
    rw [BitVec.and_or_distrib_right, old, BitVec.and_comm events, new]
    exact BitVec.zero_or
  · rcases passed.2 with off | off
    · exact off and
    · exact off (by rw [BitVec.and_comm]; exact all)

theorem not_satisfied_of_eventBits (valid : Machine.osEventReadParamCheck eventMask mode = none)
    (nothing : Machine.eventBits eventID eventMask mode = 0) :
    ¬Satisfied eventID eventMask mode := by
  rw [Machine.osEventReadParamCheck] at valid
  split at valid
  · exact absurd valid (by simp)
  rename_i some
  split at valid
  · exact absurd valid (by simp)
  split at valid
  · exact absurd valid (by simp)
  rename_i modes
  rw [not_or, not_and] at modes
  rw [Machine.eventBits] at nothing
  by_cases or : mode &&& Machine.losWaitmodeOr ≠ 0
  · rw [if_pos or] at nothing
    rintro (⟨-, found⟩ | ⟨and, -⟩)
    · rw [if_pos found] at nothing
      exact found nothing
    · exact modes.1 or and
  · rw [if_neg or] at nothing
    rintro (⟨on, -⟩ | ⟨-, all⟩)
    · exact or on
    · rw [if_pos ⟨some, all.symm⟩, all] at nothing
      exact some nothing

/-! ### Steps -/

/-- No task waits for what an event satisfies. -/
def NoneMissed (view : Nat → TaskView) (allEvent : Nat → EventCB) : Prop :=
  ∀ task event, (view task).wait = some (.eventList event) →
    ¬Satisfied (allEvent event).uwEventID (view task).eventMask (view task).eventMode

section Steps

variable {view next : Nat → TaskView} {allEvent after : Nat → EventCB}

theorem NoneMissed.quiet (none : NoneMissed view allEvent)
    (quiet : ∀ task, (view task).Quiet (next task))
    (fewer : ∀ event, ∃ kept, (after event).uwEventID = (allEvent event).uwEventID &&& kept) :
    NoneMissed next after := by
  intro task event waiting satisfied
  have before : (view task).wait = some (.eventList event) := by
    rcases (quiet task).wait with same | ended
    · rw [← same]
      exact waiting
    · exact absurd (ended.symm.trans waiting) (by simp)
  obtain ⟨mask, mode⟩ := (quiet task).event.resolve_left fun ended =>
    absurd (ended.symm.trans waiting) (by simp)
  obtain ⟨kept, bits⟩ := fewer event
  rw [mask, mode, bits] at satisfied
  exact none task event before satisfied.of_and

theorem NoneMissed.keep (none : NoneMissed view allEvent)
    (quiet : ∀ task, (view task).Quiet (next task)) : NoneMissed next allEvent :=
  none.quiet quiet fun _ => ⟨BitVec.allOnes 32, BitVec.and_allOnes.symm⟩

end Steps

theorem wakeReaders_view {sched : Sched} (events eventID : BitVec 32) {nodes : List Nat}
    (distinct : nodes.Nodup) (task : Nat) :
    (Machine.wakeReaders events eventID nodes sched).1.view task =
      if task ∈ nodes ∧ Machine.wakesReader (sched.tcb task) events eventID = true then
        (sched.view task).unwait else sched.view task := by
  induction nodes generalizing sched with
  | nil => simp [Machine.wakeReaders]
  | cons reader rest hypothesis =>
    obtain ⟨fresh, distinct⟩ := List.nodup_cons.mp distinct
    rw [Machine.wakeReaders]
    split
    · rename_i wakes
      rw [hypothesis distinct, Sched.osSchedTaskWake_view]
      by_cases same : task = reader
      · rw [same, update_self, if_neg fun both => fresh both.1,
          if_pos ⟨List.mem_cons_self, wakes⟩]
      · rw [Sched.osSchedTaskWake_touches.tcb task same]
        simp [same]
    · rename_i passed
      rw [hypothesis distinct]
      by_cases same : task = reader
      · rw [same, if_neg fun both => fresh both.1, if_neg fun both => passed both.2]
      · simp [same]

variable {machine : Machine}

theorem NoneMissed.write
    (none : NoneMissed machine.sched.view machine.allEvent) (event : Nat) (events : BitVec 32) :
    NoneMissed (machine.losEventWrite event events).1.sched.view
      (machine.losEventWrite event events).1.allEvent := by
  rw [Machine.losEventWrite]
  split
  · exact none
  have view := fun task => @wakeReaders_view machine.sched events
    ((machine.allEvent event).uwEventID ||| events) _
    (machine.sched.chains.nodup (.wait (.eventList event))) task
  show NoneMissed (Machine.wakeReaders events ((machine.allEvent event).uwEventID ||| events)
    (machine.sched.chains.nodes (.wait (.eventList event))) machine.sched).1.view
    (update machine.allEvent event ⟨(machine.allEvent event).uwEventID ||| events⟩)
  generalize (Machine.wakeReaders events ((machine.allEvent event).uwEventID ||| events)
    (machine.sched.chains.nodes (.wait (.eventList event))) machine.sched).1 = written at view ⊢
  intro task other waiting
  have kept : written.view task = machine.sched.view task ∧
      ¬(task ∈ machine.sched.chains.nodes (.wait (.eventList event)) ∧
        Machine.wakesReader (machine.sched.tcb task) events
          ((machine.allEvent event).uwEventID ||| events) = true) := by
    have after := view task
    split at after
    · rw [after] at waiting
      cases waiting
    · exact ⟨after, ‹_›⟩
  rw [kept.1] at waiting ⊢
  have asleep := none task other waiting
  by_cases its : other = event
  · subst its
    rw [update_self]
    refine not_satisfied_or asleep ?_
    by_contra wakes
    rw [Bool.not_eq_false] at wakes
    have member := (machine.sched.chains.mem_iff task _).mpr
      (Sched.view_wait_eq_some_iff.mp waiting)
    exact kept.2 ⟨member, wakes⟩
  · rw [update_of_ne its]
    exact asleep

theorem losEventPoll_kept (eventID eventMask mode : BitVec 32) :
    ∃ kept, (Machine.losEventPoll eventID eventMask mode).2 = eventID &&& kept := by
  rw [Machine.losEventPoll]
  split
  · exact ⟨_, rfl⟩
  · exact ⟨BitVec.allOnes 32, BitVec.and_allOnes.symm⟩

theorem fewer_of_update {allEvent : Nat → EventCB} {event : Nat} {bits : BitVec 32}
    (fewer : ∃ kept, bits = (allEvent event).uwEventID &&& kept) (other : Nat) :
    ∃ kept, (update allEvent event ⟨bits⟩ other).uwEventID =
      (allEvent other).uwEventID &&& kept := by
  by_cases same : other = event
  · rw [same, update_self]
    exact fewer
  · rw [update_of_ne same]
    exact ⟨BitVec.allOnes 32, BitVec.and_allOnes.symm⟩

theorem losEventPoll_bits (eventID eventMask mode : BitVec 32) :
    (Machine.losEventPoll eventID eventMask mode).1 = Machine.eventBits eventID eventMask mode := by
  rw [Machine.losEventPoll]
  split <;> rfl

theorem NoneMissed.begin {event : Nat} (none : NoneMissed machine.sched.view (machine.setEvent event
      (Machine.losEventPoll (machine.allEvent event).uwEventID eventMask mode).2).allEvent)
    (valid : Machine.osEventReadParamCheck eventMask mode = Option.none)
    (nothing : (Machine.losEventPoll (machine.allEvent event).uwEventID eventMask mode).1 = 0)
    (free : machine.sched.home machine.runTask = Option.none) (timeOut : Nat) :
    NoneMissed ((machine.sched.modify machine.runTask fun taskCB =>
      { taskCB with eventMask := eventMask, eventMode := mode }).osSchedTaskWait
        (.eventList event) timeOut).view (machine.setEvent event
      (Machine.losEventPoll (machine.allEvent event).uwEventID eventMask mode).2).allEvent := by
  obtain ⟨noted, eq⟩ : ∃ noted, noted = machine.sched.modify machine.runTask fun taskCB =>
    { taskCB with eventMask := eventMask, eventMode := mode } := ⟨_, rfl⟩
  have runTask : noted.runTask = machine.runTask := by
    rw [eq]
    rfl
  have touches : Sched.Touches machine.runTask machine.sched noted :=
    eq ▸ Sched.modify_touches _
  have self : noted.view machine.runTask =
      { machine.sched.view machine.runTask with eventMask := eventMask, eventMode := mode } := by
    rw [eq, Sched.view, Sched.modify_tcb, update_self]
    rfl
  have view := @Sched.osSchedTaskWait_view noted (.eventList event) timeOut (by
    rw [eq]
    exact free)
  rw [← eq, view, runTask]
  intro task other waiting
  by_cases its : task = machine.runTask
  · rw [its, update_self, self] at waiting ⊢
    have same : other = event := by
      simpa [TaskView.waitIn] using waiting.symm
    subst same
    rw [losEventPoll_bits] at nothing
    obtain ⟨kept, bits⟩ := losEventPoll_kept (machine.allEvent other).uwEventID eventMask mode
    show ¬Satisfied (update machine.allEvent other _ other).uwEventID eventMask mode
    rw [update_self, bits]
    exact fun satisfied => not_satisfied_of_eventBits valid nothing satisfied.of_and
  · rw [update_of_ne its, touches.view, update_of_ne its] at waiting ⊢
    exact none task other waiting

theorem NoneMissed.read (wellFormed : WellFormed False machine)
    {interrupt : Bool} (calls : machine.Calls interrupt)
    (none : NoneMissed machine.sched.view machine.allEvent) (event : Nat)
    (eventMask mode : BitVec 32) (timeOut : Nat) :
    NoneMissed (machine.losEventRead interrupt event eventMask mode timeOut).1.sched.view
      (machine.losEventRead interrupt event eventMask mode timeOut).1.allEvent := by
  have taken : NoneMissed machine.sched.view (machine.setEvent event
      (Machine.losEventPoll (machine.allEvent event).uwEventID eventMask mode).2).allEvent :=
    none.quiet (fun _ => .refl) (fewer_of_update (losEventPoll_kept _ _ _))
  rw [Machine.losEventRead]
  split
  · exact none
  rename_i valid
  split
  · exact none
  rename_i task
  split
  · exact none
  simp only
  split
  · rename_i nothing
    split
    · exact taken
    split
    · exact taken
    · obtain ⟨runnable, -⟩ := calls (Bool.not_eq_true _ ▸ task)
      have free := wellFormed.sound.home_of_runnable runnable
      exact taken.begin valid nothing free timeOut
  · exact taken

/-- The calls of `los_event.c` for reading, writing and clearing. -/
def Operation.onEvent : Operation → Bool
  | eventRead _ _ _ _ => true
  | eventWrite _ _ => true
  | eventClear _ _ => true
  | _ => false

theorem NoneMissed.enter (wellFormed : WellFormed False machine)
    {interrupt : Bool} (calls : machine.Calls interrupt)
    (none : NoneMissed machine.sched.view machine.allEvent) {operation : Operation}
    (allowed : operation.onEvent = true) :
    NoneMissed (machine.enter interrupt operation).1.sched.view
      (machine.enter interrupt operation).1.allEvent := by
  cases operation with
  | eventRead event eventMask mode timeOut => exact none.read wellFormed calls _ _ _ _
  | eventWrite event events => exact none.write event events
  | eventClear event eventMask =>
    exact none.quiet (fun _ => .refl) (fewer_of_update ⟨eventMask, rfl⟩)
  | _ => exact absurd allowed nofun

theorem leave_fewer {cont : Cont}
    (fits : cont.Fits machine.sched.config False machine.runTask) (event : Nat) :
    ∃ kept, ((machine.leave cont).1.allEvent event).uwEventID =
      (machine.allEvent event).uwEventID &&& kept := by
  have same : ∀ next : Machine, next.allEvent = machine.allEvent →
      ∃ kept, (next.allEvent event).uwEventID = (machine.allEvent event).uwEventID &&& kept :=
    fun next kept => ⟨BitVec.allOnes 32, by rw [kept, BitVec.and_allOnes]⟩
  cases cont with
  | finish ret => exact same _ rfl
  | semPend sem =>
    rw [Machine.leave, Machine.losSemPendResumed]
    split <;> exact same _ rfl
  | muxPend mux =>
    rw [Machine.leave, Machine.losMuxPendResumed]
    split <;> exact same _ rfl
  | queueOperate queue operate =>
    rw [Machine.leave, Machine.osQueueOperateResumed, Machine.wakeOtherDirection]
    split
    · exact same _ rfl
    · split <;> cases operate <;> exact same _ rfl
  | eventRead other eventMask mode =>
    rw [Machine.leave, Machine.losEventReadResumed]
    split
    · exact same _ rfl
    · exact fewer_of_update (losEventPoll_kept _ _ _) event
  | taskJoin taskID => exact absurd fits.1 id
  | taskDetach taskID => exact absurd fits.1 id

theorem NoneMissed.step {next : Machine} {action : Action} (wellFormed : WellFormed False machine)
    (none : NoneMissed machine.sched.view machine.allEvent)
    (allowed : action.within Operation.onEvent = true) (steps : machine.Steps action next) :
    NoneMissed next.sched.view next.allEvent := by
  cases steps with
  | call goes inside real =>
    have runnable := wellFormed.runnable goes (by simp [inside])
    exact none.enter wellFormed (fun _ => ⟨runnable, real⟩) allowed
  | schedule goes inside =>
    rw [Machine.losSchedule_view, Machine.allEvent_of_objects (Machine.losSchedule_objects _)]
    exact none
  | resume goes inside =>
    have runnable := wellFormed.runnable goes (by simp [inside])
    have fits := wellFormed.fits machine.runTask
    rw [inside] at fits
    exact none.quiet (Machine.leave_quiet wellFormed runnable inside) (leave_fewer fits)
  | enqueue goes inside => exact absurd allowed nofun
  | interrupt may =>
    rw [Machine.handle_view, Machine.allEvent_of_objects (Machine.handle_objects _)]
    exact none.enter wellFormed (fun task => absurd task (by simp)) allowed
  | interruptEnqueue member => exact absurd allowed nofun
  | switch due last =>
    rw [Machine.losSchedule_view, Machine.allEvent_of_objects (Machine.losSchedule_objects _)]
    exact none
  | tick =>
    refine none.keep fun task => ?_
    rcases wellFormed.sound.ticked_view _ task with same | late
    · exact .of_eq same
    · exact late ▸ .timedOut
  | elapse => exact none
  | setPmMode => exact absurd allowed nofun
  | recycle => exact absurd allowed nofun

/-! ### Runs -/

/-- In every state of every run of `LOS_EventRead`, `LOS_EventWrite` and `LOS_EventClear` with
their timeouts, no task in the list of an event waits for what the event satisfies. -/
theorem event_wakeup_not_lost {machine : Machine}
    (reached : Reachable Machine.step (fun _ action => action.within Operation.onEvent = true)
      Initial machine) (event : Nat) :
    ∀ task ∈ machine.sched.chains.nodes (.wait (.eventList event)),
      ¬Satisfied (machine.allEvent event).uwEventID (machine.sched.tcb task).eventMask
        (machine.sched.tcb task).eventMode := by
  have held := (@reachable_invariant False _ _ (fun machine =>
    NoneMissed machine.sched.view machine.allEvent) machine (fun machine initial =>
      ⟨initial, fun task event waiting => ?_⟩) ?_ ?_ reached).1
  · intro task member
    exact held task event (Sched.view_wait_eq_some_iff.mpr
      ((machine.sched.chains.mem_iff task _).mp member))
  · exact absurd ((initial.idle task).symm.trans waiting) (by simp)
  · intro machine action allowed operation made joins
    have event := Action.within_operation allowed made
    cases operation <;> simp [Operation.onEvent, Operation.joins] at event joins
  · exact fun machine action next wellFormed none allowed steps =>
      none.step wellFormed allowed steps

/-- Tasks 1 and 2 begin to wait, task 3 sets a bit that wakes only task 1. -/
def sampleEventRun : List Action :=
  [.tick false, .switch, .call (.eventRead 0 3 2 losWaitForever), .schedule,
    .call (.eventRead 0 3 4 losWaitForever), .schedule, .call (.eventWrite 0 1)]

theorem event_wakeup_not_lost_sample : ∃ machine,
    execute Machine.step (fun _ action => action.within Operation.onEvent) sampleMachine
      sampleEventRun = some machine ∧
    ∀ task ∈ machine.sched.chains.nodes (.wait (.eventList 0)),
      ¬Satisfied (machine.allEvent 0).uwEventID (machine.sched.tcb task).eventMask
        (machine.sched.tcb task).eventMode := by
  have runs : (execute Machine.step (fun _ action => action.within Operation.onEvent)
      sampleMachine sampleEventRun).isSome = true := by decide
  obtain ⟨machine, result⟩ := Option.isSome_iff_exists.mp runs
  exact ⟨machine, result, event_wakeup_not_lost
    (.of_execute (fun _ _ => id) _ (.start initial_sampleMachine) result) 0⟩

example : (execute Machine.step (fun _ action => action.within Operation.onEvent) sampleMachine
    sampleEventRun).map (fun machine => machine.sched.chains.nodes (.wait (.eventList 0))) =
      some [2] := by
  decide

end TowerSafe.Kernel
