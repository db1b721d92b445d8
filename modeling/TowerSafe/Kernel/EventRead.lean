/-
This file says what a call of `LOS_EventRead` with a timeout may return, in any interleaving with
other readers, with writers and with all other calls. A reader that was woken looks at the event
again when it runs; when other readers have cleared the bits by then, it returns zero, which the
interface gives for an event that does not occur.
-/

import TowerSafe.Kernel.EventWait

namespace TowerSafe.Kernel

open Library

/-- A call of `LOS_EventRead` returns: at once, or after a wait, when its task comes to the rest of
the call in a run of any calls. What is given beside the result is the event that the task found
after its wait. -/
inductive EventReadReturns (event : Nat) (eventMask mode : BitVec 32) (timeOut : Nat) :
    Option (BitVec 32) → Ret → Prop
  | atOnce {machine : Machine} {interrupt : Bool} {ret : Ret}
      (returns : (machine.enter interrupt (.eventRead event eventMask mode timeOut)).2 =
        .returns ret) :
      EventReadReturns event eventMask mode timeOut none ret
  | woken {before after : Machine} {ret : Ret}
      (waits : (before.enter false (.eventRead event eventMask mode timeOut)).2 =
        .schedules (.eventRead event eventMask mode))
      (meanwhile : Reachable Machine.step (fun _ _ => True)
        (· = Machine.proceed (before.enter false (.eventRead event eventMask mode timeOut))) after)
      (runs : after.runTask = before.runTask)
      (inside : after.pc after.runTask = .resume (.eventRead event eventMask mode))
      (returns : (after.leave (.eventRead event eventMask mode)).2 = .returns ret) :
      EventReadReturns event eventMask mode timeOut (some (after.allEvent event).uwEventID) ret

/-- An error code, or bits that are some of the requested ones and satisfy the request: all of them
in AND mode. -/
def Answers (eventMask mode : BitVec 32) : Ret → Prop
  | .error _ => True
  | .events bits => bits ≠ 0 ∧ bits &&& eventMask = bits ∧ Satisfied bits eventMask mode ∧
      (mode &&& Machine.losWaitmodeAnd ≠ 0 → bits = eventMask)
  | .ok => False

theorem modes_of_osEventReadParamCheck {eventMask mode : BitVec 32}
    (valid : Machine.osEventReadParamCheck eventMask mode = none) :
    eventMask ≠ 0 ∧ ((mode &&& Machine.losWaitmodeOr ≠ 0 ∧ mode &&& Machine.losWaitmodeAnd = 0) ∨
      (mode &&& Machine.losWaitmodeOr = 0 ∧ mode &&& Machine.losWaitmodeAnd ≠ 0)) := by
  rw [Machine.osEventReadParamCheck] at valid
  split at valid
  · cases valid
  rename_i some
  split at valid
  · cases valid
  split at valid
  · cases valid
  rename_i modes
  rw [not_or, not_or] at modes
  obtain ⟨both, -, neither⟩ := modes
  refine ⟨some, ?_⟩
  by_cases or : mode &&& Machine.losWaitmodeOr = 0
  · refine .inr ⟨or, fun and => neither ?_⟩
    rw [BitVec.and_or_distrib_left, or, and]
    exact BitVec.zero_or
  · exact .inl ⟨or, not_not.mp fun and => both ⟨or, and⟩⟩

theorem answers_of_eventBits {eventMask mode : BitVec 32} (eventID : BitVec 32)
    (valid : Machine.osEventReadParamCheck eventMask mode = none) :
    Answers eventMask mode (.events (Machine.eventBits eventID eventMask mode)) ∨
      ¬Satisfied eventID eventMask mode ∧ Machine.eventBits eventID eventMask mode = 0 := by
  by_cases nothing : Machine.eventBits eventID eventMask mode = 0
  · exact .inr ⟨not_satisfied_of_eventBits valid nothing, nothing⟩
  refine .inl ⟨nothing, ?_⟩
  obtain ⟨-, ⟨or, and⟩ | ⟨or, and⟩⟩ := modes_of_osEventReadParamCheck valid
  · rw [Machine.eventBits, if_pos or] at nothing ⊢
    by_cases some : eventID &&& eventMask ≠ 0
    · rw [if_pos some]
      have within : eventID &&& eventMask &&& eventMask = eventID &&& eventMask := by
        rw [BitVec.and_assoc, BitVec.and_self]
      exact ⟨within, .inl ⟨or, by rw [within]; exact some⟩, fun on => absurd and on⟩
    · exact absurd (if_neg some) nothing
  · rw [Machine.eventBits, if_neg (not_not.mpr or)] at nothing ⊢
    by_cases all : eventMask ≠ 0 ∧ eventMask = eventID &&& eventMask
    · rw [if_pos all, ← all.2]
      exact ⟨BitVec.and_self, .inr ⟨and, BitVec.and_self⟩, fun _ => rfl⟩
    · exact absurd (if_neg all) nothing

variable {event timeOut : Nat} {eventMask mode : BitVec 32} {word : Option (BitVec 32)} {ret : Ret}

theorem losEventRead_ends (machine : Machine) (interrupt : Bool) (waits : timeOut ≠ 0) :
    (∃ ret, (machine.losEventRead interrupt event eventMask mode timeOut).2 = .returns ret ∧
      Answers eventMask mode ret) ∨
    (machine.losEventRead interrupt event eventMask mode timeOut).2 =
        .schedules (.eventRead event eventMask mode) ∧
      Machine.osEventReadParamCheck eventMask mode = none := by
  rw [Machine.losEventRead]
  split
  · exact .inl ⟨_, rfl, trivial⟩
  rename_i valid
  split
  · exact .inl ⟨_, rfl, trivial⟩
  split
  · exact .inl ⟨_, rfl, trivial⟩
  simp only [losEventPoll_bits]
  split
  · split
    · exact .inl ⟨_, rfl, trivial⟩
    · exact .inr ⟨rfl, valid⟩
  · rename_i found
    exact .inl ⟨_, rfl, (answers_of_eventBits _ valid).resolve_right fun none => found none.2⟩

/-- With a timeout, `LOS_EventRead` returns an error code, bits that satisfy the request, or, after
a wait, zero, when the event does not satisfy the request by the time its task runs. -/
theorem eventRead_returns (waits : timeOut ≠ 0)
    (returns : EventReadReturns event eventMask mode timeOut word ret) :
    Answers eventMask mode ret ∨
      ∃ eventID ∈ word, ¬Satisfied eventID eventMask mode ∧ ret = .events 0 := by
  cases returns with
  | @atOnce machine interrupt _ returns =>
    refine .inl ?_
    rcases losEventRead_ends machine interrupt waits with ⟨answer, result, answers⟩ | ⟨result, -⟩
    · obtain rfl := Next.returns.inj (returns.symm.trans result)
      exact answers
    · exact absurd (returns.symm.trans result) nofun
  | @woken before after _ began meanwhile runs inside returns =>
    have valid : Machine.osEventReadParamCheck eventMask mode = none := by
      rcases losEventRead_ends before false waits with ⟨answer, result, -⟩ | ⟨-, valid⟩
      · exact absurd (began.symm.trans result) nofun
      · exact valid
    rw [Machine.leave, Machine.losEventReadResumed] at returns
    split at returns
    · obtain rfl := Next.returns.inj returns
      exact .inl trivial
    obtain rfl := Next.returns.inj returns
    rw [losEventPoll_bits]
    rcases answers_of_eventBits (after.allEvent event).uwEventID valid with answers | ⟨off, none⟩
    · exact .inl answers
    · exact .inr ⟨_, rfl, off, congrArg _ none⟩

/-- Tasks 1 and 2 wait for a bit that they clear, and task 3 writes it: this is where task 2 makes
its call. -/
def readersRun : List Action :=
  [.tick false, .switch, .call (.eventRead 0 1 3 losWaitForever), .schedule]

/-- Task 1 takes the bit and sleeps, and task 2 comes to the rest of its call. -/
def takenRun : List Action :=
  [.schedule, .call (.eventWrite 0 1), .schedule, .resume, .call (.taskDelay 5), .schedule]

/-- Task 2 returns from its call with what it finds after the steps given. -/
def comesBack (steps : List Action) (found : Ret) : Bool :=
  ((execute Machine.step (fun _ _ => true) sampleMachine readersRun).bind fun before =>
    (execute Machine.step (fun _ _ => true)
      (Machine.proceed (before.enter false (.eventRead 0 1 3 losWaitForever))) steps).map
        fun after =>
          decide ((before.enter false (.eventRead 0 1 3 losWaitForever)).2 =
              .schedules (.eventRead 0 1 3) ∧ after.runTask = before.runTask ∧
            after.pc after.runTask = .resume (.eventRead 0 1 3) ∧
            (after.leave (.eventRead 0 1 3)).2 = .returns found)) = some true

theorem EventReadReturns.of_comesBack {steps : List Action} {found : Ret}
    (comes : comesBack steps found = true) :
    ∃ eventID, EventReadReturns 0 1 3 losWaitForever (some eventID) found := by
  obtain ⟨before, -, rest⟩ := Option.bind_eq_some_iff.mp (of_decide_eq_true comes)
  obtain ⟨after, result, looks⟩ := Option.map_eq_some_iff.mp rest
  obtain ⟨began, runs, inside, returns⟩ := of_decide_eq_true looks
  exact ⟨_, .woken began (.of_execute (fun _ _ _ => trivial) _ (.start rfl) result) runs inside
    returns⟩

def writtenAgainRun : List Action :=
  takenRun.take 4 ++ [.call (.eventWrite 0 1)] ++ takenRun.drop 4

theorem eventRead_returns_sample : ∃ eventID,
    EventReadReturns 0 1 3 losWaitForever (some eventID) (.events 1) ∧
      (Answers 1 3 (.events 1) ∨ ∃ word ∈ some eventID, ¬Satisfied word 1 3 ∧
        Ret.events 1 = .events 0) := by
  obtain ⟨eventID, returns⟩ := EventReadReturns.of_comesBack
    (by decide +kernel : comesBack writtenAgainRun (.events 1) = true)
  exact ⟨eventID, returns, eventRead_returns (by decide) returns⟩

/-- Task 2 was woken for a bit that task 1 took first, and returns zero. -/
theorem eventRead_returns_zero : ¬∀ event eventMask mode timeOut word ret, timeOut ≠ 0 →
    EventReadReturns event eventMask mode timeOut word ret → Answers eventMask mode ret := by
  intro all
  obtain ⟨eventID, returns⟩ := EventReadReturns.of_comesBack
    (by decide +kernel : comesBack takenRun (.events 0) = true)
  exact (all 0 1 3 losWaitForever _ _ (by decide) returns).1 rfl

end TowerSafe.Kernel
