/-
This file embeds the stages of the boot: `SAMGR_Bootstrap` and `InitCompleted` with their critical
sections apart, the tasks that finish the initialization of a service, the bootstrap service that
handles the messages of a stage, and services that are registered at any time. The messages come
once and in order; each comes when the services of its stage are initialized, as long as that is so
when the status goes on.

The initialization of a service is a step of its task, for services that a request was sent to.
-/

import Mathlib.Data.List.Basic
import Mathlib.Logic.Function.Basic
import TowerSafe.Library.Transition

namespace TowerSafe.BootStage

open Library Option

/-! ### The service manager -/

inductive BootStatus where
  | bootSys
  | bootSysWait
  | bootApp
  | bootAppWait
  | bootDynamic
  | bootDynamicWait
  deriving DecidableEq

namespace BootStatus

/-- The number of a status. -/
def toNat : BootStatus → Nat
  | .bootSys => 0
  | .bootSysWait => 1
  | .bootApp => 2
  | .bootAppWait => 3
  | .bootDynamic => 4
  | .bootDynamicWait => 5

/-- `TO_NEXT_STATUS`: the last bit is set. -/
def toNext : BootStatus → BootStatus
  | .bootSys | .bootSysWait => .bootSysWait
  | .bootApp | .bootAppWait => .bootAppWait
  | .bootDynamic | .bootDynamicWait => .bootDynamicWait

end BootStatus

/-- The part of `BootMessage` that the service manager sends. -/
inductive BootMessage where
  | bootSysCompleted
  | bootAppCompleted
  deriving DecidableEq

/-- The last status at which a service is registered for the stage of a message. -/
def BootMessage.stage : BootMessage → BootStatus
  | .bootSysCompleted => .bootSysWait
  | .bootAppCompleted => .bootAppWait

/-- `ServiceImpl`: the status at which it was registered, whether it was sent a request, and whether
it is no longer `SVC_INIT`. -/
structure ServiceImpl where
  step : BootStatus
  requested : Bool
  inited : Bool
  deriving DecidableEq

/-- Where a task is in `SAMGR_Bootstrap`, `InitCompleted` or the handler of a stage message. -/
inductive Pc where
  | user
  /-- In `InitializeAllServices`, with the services that are left. -/
  | initializing (services : List Nat)
  /-- Before `GetUninitializedPos`. -/
  | completing
  /-- Before the size is read. -/
  | scanned (pos : Nat)
  /-- Before the critical section that looks at the status. -/
  | checked (pos : Nat)
  /-- Before `SendBootRequest`. -/
  | sending (message : BootMessage) (pos : Nat)
  /-- In the handler of the bootstrap service, before `SAMGR_Bootstrap`. -/
  | handling (message : BootMessage)
  deriving DecidableEq

/-- A message that was sent, with the services at that moment. -/
structure Sent where
  message : BootMessage
  services : List ServiceImpl
  deriving DecidableEq

/-- `SamgrLiteImpl`, with the messages to the bootstrap service, those that were sent, latest first,
whether `main` has called `SAMGR_Bootstrap`, and where every task is. -/
structure SamgrLite where
  services : List ServiceImpl
  status : BootStatus
  messages : List BootMessage
  sent : List Sent
  started : Bool
  pc : Nat → Pc

inductive Action where
  /-- `main` calls `SAMGR_Bootstrap`. -/
  | bootstrap (task : Nat)
  /-- `InitializeAllServices` comes to its next service; `requested` is whether its request is put.
  -/
  | initService (task : Nat) (requested : Bool)
  /-- `InitializeAllServices` is done. -/
  | initialized (task : Nat)
  /-- A task comes to the end of `HandleInitRequest`. -/
  | finishInit (task : Nat) (service : Nat)
  /-- `GetUninitializedPos`. -/
  | scan (task : Nat)
  /-- The comparison with the size. -/
  | readSize (task : Nat)
  /-- The critical section of `InitCompleted`. -/
  | transition (task : Nat)
  /-- `SendBootRequest`; `room` is whether the message is put. -/
  | send (task : Nat) (room : Bool)
  /-- The bootstrap service gets a message. -/
  | receive (task : Nat)
  /-- The response to a stage message calls `SAMGR_Bootstrap`. -/
  | respond (task : Nat)
  /-- `RegisterService` of a new service. -/
  | register
  deriving DecidableEq

namespace SamgrLite

variable (samgr : SamgrLite)

def setPc (task : Nat) (pc : Pc) : SamgrLite :=
  { samgr with pc := Function.update samgr.pc task pc }

def getUninitializedPos : Nat :=
  samgr.services.findIdx fun service => !service.inited

/-- The services that `SAMGR_Bootstrap` puts into its list. -/
def initServices : List Nat :=
  (List.range samgr.services.length).filter fun place =>
    (samgr.services[place]?).any fun service => !service.inited

/-- The first critical section of `SAMGR_Bootstrap`. -/
def samgrBootstrap (task : Nat) : SamgrLite :=
  { samgr with status := samgr.status.toNext }.setPc task (.initializing samgr.initServices)

/-- The critical section of `InitCompleted`. -/
def initCompleted (task pos : Nat) : SamgrLite :=
  match samgr.status with
  | .bootSysWait =>
      { samgr with status := .bootApp }.setPc task (.sending .bootSysCompleted pos)
  | .bootAppWait =>
      { samgr with status := .bootDynamic }.setPc task (.sending .bootAppCompleted pos)
  | _ => samgr.setPc task .user

def step : Action → Option SamgrLite
  | .bootstrap task =>
      if samgr.pc task = .user ∧ samgr.started = false then
        some ({ samgr with started := true }.samgrBootstrap task)
      else none
  | .initService task requested =>
      match samgr.pc task with
      | .initializing (service :: rest) =>
          some ({ samgr with
            services := samgr.services.modify service fun one =>
              { one with requested := one.requested || requested } }.setPc task
                (.initializing rest))
      | _ => none
  | .initialized task =>
      match samgr.pc task with
      | .initializing [] => some (samgr.setPc task .completing)
      | _ => none
  | .finishInit task service =>
      if samgr.pc task = .user ∧
          (samgr.services[service]?).any ServiceImpl.requested = true then
        some ({ samgr with
          services := samgr.services.modify service fun one =>
            { one with inited := true } }.setPc task .completing)
      else none
  | .scan task =>
      match samgr.pc task with
      | .completing => some (samgr.setPc task (.scanned samgr.getUninitializedPos))
      | _ => none
  | .readSize task =>
      match samgr.pc task with
      | .scanned pos =>
          some (samgr.setPc task (if pos < samgr.services.length then .user else .checked pos))
      | _ => none
  | .transition task =>
      match samgr.pc task with
      | .checked pos => some (samgr.initCompleted task pos)
      | _ => none
  | .send task room =>
      match samgr.pc task with
      | .sending message _ =>
          some ({ samgr with
            messages := if room then samgr.messages ++ [message] else samgr.messages
            sent := ⟨message, samgr.services⟩ :: samgr.sent }.setPc task .user)
      | _ => none
  | .receive task =>
      match samgr.pc task, samgr.messages with
      | .user, message :: rest =>
          some ({ samgr with messages := rest }.setPc task (.handling message))
      | _, _ => none
  | .respond task =>
      match samgr.pc task with
      | .handling _ => some (samgr.samgrBootstrap task)
      | _ => none
  | .register =>
      some { samgr with services := samgr.services ++ [⟨samgr.status, false, false⟩] }

end SamgrLite

/-- The messages were sent at most once and in order, each when every service that was registered
for its stage or an earlier one was initialized. -/
structure InOrder (samgr : SamgrLite) : Prop where
  order : samgr.sent.map Sent.message ∈
    [[], [.bootSysCompleted], [.bootAppCompleted, .bootSysCompleted]]
  clean : ∀ sent ∈ samgr.sent, ∀ service ∈ sent.services,
    service.step.toNat ≤ sent.message.stage.toNat → service.inited = true

/-- The status goes on only when the scan would still find no service to initialize. -/
def settled (samgr : SamgrLite) : Action → Bool
  | .transition _ =>
      samgr.getUninitializedPos == samgr.services.length ||
        (samgr.status != .bootSysWait && samgr.status != .bootAppWait)
  | _ => true

/-! ### Who goes on with the boot -/

/-- Who has to go on: nobody before `main`; the services of a stage; the task that sends a message;
the bootstrap service that will get it or handles it; nobody when the message was not put; and
nobody at the end. -/
inductive Turn where
  | start
  | waiting (message : BootMessage)
  | sending (message : BootMessage) (task : Nat)
  | queued (message : BootMessage)
  | handling (message : BootMessage) (task : Nat)
  | lost (message : BootMessage)
  | done
  deriving DecidableEq

namespace Turn

def statusOf : BootMessage → BootStatus
  | .bootSysCompleted => .bootApp
  | .bootAppCompleted => .bootDynamic

def status : Turn → BootStatus
  | .start => .bootSys
  | .waiting message => message.stage
  | .sending message _ => statusOf message
  | .queued message => statusOf message
  | .handling message _ => statusOf message
  | .lost message => statusOf message
  | .done => .bootDynamicWait

def before : BootMessage → List BootMessage
  | .bootSysCompleted => []
  | .bootAppCompleted => [.bootSysCompleted]

def sent : Turn → List BootMessage
  | .start => []
  | .waiting message => before message
  | .sending message _ => before message
  | .queued message => message :: before message
  | .handling message _ => message :: before message
  | .lost message => message :: before message
  | .done => [.bootAppCompleted, .bootSysCompleted]

def messages : Turn → List BootMessage
  | .queued message => [message]
  | _ => []

/-- Whose turn it is after the bootstrap service has handled a message. -/
def afterHandling : BootMessage → Turn
  | .bootSysCompleted => .waiting .bootAppCompleted
  | .bootAppCompleted => .done

theorem sent_mem (turn : Turn) : turn.sent ∈
    [[], [BootMessage.bootSysCompleted], [.bootAppCompleted, .bootSysCompleted]] := by
  cases turn with
  | start => decide
  | waiting message => cases message <;> decide
  | sending message task => cases message <;> exact of_decide_eq_true rfl
  | queued message => cases message <;> decide
  | handling message task => cases message <;> exact of_decide_eq_true rfl
  | lost message => cases message <;> decide
  | done => decide

theorem eq_waiting {turn : Turn} {message : BootMessage} (same : turn.status = message.stage) :
    turn = .waiting message := by
  cases turn with
  | waiting one =>
    cases one <;> cases message <;> first | rfl | exact BootStatus.noConfusion same
  | sending one task => cases one <;> cases message <;> exact BootStatus.noConfusion same
  | queued one => cases one <;> cases message <;> exact BootStatus.noConfusion same
  | handling one task => cases one <;> cases message <;> exact BootStatus.noConfusion same
  | lost one => cases one <;> cases message <;> exact BootStatus.noConfusion same
  | start => cases message <;> exact BootStatus.noConfusion same
  | done => cases message <;> exact BootStatus.noConfusion same

end Turn

/-- The turn tells the status, the messages and who sends or handles one; and the services that were
registered for a stage are initialized when its message is being sent. -/
structure SamgrLite.At (samgr : SamgrLite) (turn : Turn) : Prop where
  status : samgr.status = turn.status
  sent : samgr.sent.map Sent.message = turn.sent
  messages : samgr.messages = turn.messages
  started : samgr.started = true ↔ turn ≠ .start
  sending : ∀ task message pos, samgr.pc task = .sending message pos → turn = .sending message task
  handling : ∀ task message, samgr.pc task = .handling message → turn = .handling message task
  steps : ∀ service ∈ samgr.services, service.step.toNat ≤ samgr.status.toNat
  inTime : ∀ message task, turn = .sending message task → ∀ service ∈ samgr.services,
    service.step.toNat ≤ message.stage.toNat → service.inited = true
  clean : ∀ sent ∈ samgr.sent, ∀ service ∈ sent.services,
    service.step.toNat ≤ sent.message.stage.toNat → service.inited = true

namespace SamgrLite.At

variable {samgr next : SamgrLite} {turn : Turn}

theorem inOrder (at_ : samgr.At turn) : InOrder samgr := ⟨at_.sent ▸ turn.sent_mem, at_.clean⟩

theorem go (at_ : samgr.At turn) {task : Nat} {pc : Pc}
    (idle : ∀ message, (∀ pos, pc ≠ .sending message pos) ∧ pc ≠ .handling message)
    {services : List ServiceImpl}
    (kept : ∀ service ∈ services, ∃ old ∈ samgr.services, service.step = old.step ∧
      (old.inited = true → service.inited = true)) :
    ({ samgr with services := services }.setPc task pc).At turn := by
  refine ⟨at_.status, at_.sent, at_.messages, at_.started, fun other message pos found => ?_,
    fun other message found => ?_, fun service member => ?_, fun message other same service member
    step => ?_, at_.clean⟩
  · by_cases same : other = task
    · subst same
      exact absurd ((Function.update_self ..).symm.trans found) ((idle message).1 pos)
    · exact at_.sending other message pos ((Function.update_of_ne same ..).symm.trans found)
  · by_cases same : other = task
    · subst same
      exact absurd ((Function.update_self ..).symm.trans found) (idle message).2
    · exact at_.handling other message ((Function.update_of_ne same ..).symm.trans found)
  · obtain ⟨old, oldMember, sameStep, -⟩ := kept service member
    rw [sameStep]
    exact at_.steps old oldMember
  · obtain ⟨old, oldMember, sameStep, inited⟩ := kept service member
    rw [sameStep] at step
    exact inited (at_.inTime message other same old oldMember step)

theorem goAlone (at_ : samgr.At turn) {task : Nat} {pc : Pc}
    (idle : ∀ message, (∀ pos, pc ≠ .sending message pos) ∧ pc ≠ .handling message) :
    (samgr.setPc task pc).At turn :=
  at_.go idle fun service member => ⟨service, member, rfl, id⟩

theorem kept_modify {services : List ServiceImpl} {place : Nat} {change : ServiceImpl → ServiceImpl}
    (keeps : ∀ one, (change one).step = one.step ∧ (one.inited = true → (change one).inited = true)) :
    ∀ service ∈ services.modify place change, ∃ old ∈ services, service.step = old.step ∧
      (old.inited = true → service.inited = true) := by
  intro service member
  obtain ⟨index, found⟩ := List.getElem?_of_mem member
  rw [List.getElem?_modify] at found
  obtain ⟨old, oldFound, rfl⟩ := map_eq_some_iff.mp found
  refine ⟨old, List.mem_of_getElem? oldFound, ?_⟩
  split
  · exact keeps old
  · exact ⟨rfl, id⟩

theorem pc_setPc {task other : Nat} {pc one : Pc} (found : (samgr.setPc task pc).pc other = one) :
    (other = task ∧ pc = one) ∨ (other ≠ task ∧ samgr.pc other = one) := by
  by_cases same : other = task
  · subst same
    exact .inl ⟨rfl, (Function.update_self ..).symm.trans found⟩
  · exact .inr ⟨same, (Function.update_of_ne same ..).symm.trans found⟩

theorem toNat_le_toNext (status : BootStatus) : status.toNat ≤ status.toNext.toNat := by
  cases status <;> decide

section

variable (at_ : samgr.At turn)
include at_

theorem samgrBootstrap {after : Turn} {started : Bool} (task : Nat)
    (status : turn.status.toNext = after.status) (sent : turn.sent = after.sent)
    (messages : turn.messages = after.messages) (start : started = true ↔ after ≠ .start)
    (nobody : ∀ other message, turn = .sending message other → False)
    (settled : ∀ other message, after = .sending message other → False)
    (handler : ∀ other message, turn = .handling message other → other = task) :
    ({ samgr with started := started }.samgrBootstrap task).At after := by
  refine ⟨?_, at_.sent.trans sent, at_.messages.trans messages, start,
    fun other message pos found => ?_, fun other message found => ?_, fun service member => ?_,
    fun message other same => absurd same (settled other message), at_.clean⟩
  · exact (congrArg BootStatus.toNext at_.status).trans status
  · rcases pc_setPc found with ⟨-, different⟩ | ⟨-, old⟩
    · exact Pc.noConfusion different
    · exact absurd (at_.sending other message pos old) (nobody other message)
  · rcases pc_setPc found with ⟨-, different⟩ | ⟨apart, old⟩
    · exact Pc.noConfusion different
    · exact absurd (handler other message (at_.handling other message old)) apart
  · exact Nat.le_trans (at_.steps service member) (toNat_le_toNext _)

theorem transition {task pos : Nat} {message : BootMessage}
    (waiting : turn = .waiting message) (all : ∀ service ∈ samgr.services, service.inited = true)
    (later : samgr.status.toNat ≤ (Turn.statusOf message).toNat) :
    ({ samgr with status := Turn.statusOf message }.setPc task (.sending message pos)).At
      (.sending message task) := by
  subst waiting
  refine ⟨rfl, at_.sent, at_.messages, ⟨fun _ => Turn.noConfusion, fun _ => ?_⟩,
    fun other one position found => ?_, fun other one found => ?_, fun service member => ?_,
    fun _ _ _ service member _ => all service member, at_.clean⟩
  · exact at_.started.mpr Turn.noConfusion
  · rcases pc_setPc found with ⟨rfl, same⟩ | ⟨-, old⟩
    · injection same with same
      rw [same]
    · exact Turn.noConfusion (at_.sending other one position old)
  · rcases pc_setPc found with ⟨-, different⟩ | ⟨-, old⟩
    · exact Pc.noConfusion different
    · exact Turn.noConfusion (at_.handling other one old)
  · exact Nat.le_trans (at_.steps service member) later

theorem send {task pos : Nat} {message : BootMessage} (room : Bool)
    (sending : samgr.pc task = .sending message pos) : ({ samgr with
      messages := if room then samgr.messages ++ [message] else samgr.messages
      sent := ⟨message, samgr.services⟩ :: samgr.sent }.setPc task .user).At
        (if room then .queued message else .lost message) := by
  obtain rfl := at_.sending task message pos sending
  have empty : samgr.messages = [] := at_.messages
  have sent : (⟨message, samgr.services⟩ :: samgr.sent).map Sent.message =
      message :: Turn.before message := by
    rw [List.map_cons, at_.sent]
    rfl
  refine ⟨?_, sent.trans ?_, ?_, ⟨fun _ => ?_, fun _ => at_.started.mpr Turn.noConfusion⟩,
    fun other one position found => ?_, fun other one found => ?_, at_.steps,
    fun one other same => ?_, fun one member => ?_⟩
  · cases room <;> exact at_.status
  · cases room <;> rfl
  · cases room <;> simp [empty, SamgrLite.setPc, Turn.messages]
  · cases room <;> exact Turn.noConfusion
  · rcases pc_setPc found with ⟨-, different⟩ | ⟨apart, old⟩
    · exact Pc.noConfusion different
    · have same := at_.sending other one position old
      injection same with _ same
      exact absurd same.symm apart
  · rcases pc_setPc found with ⟨-, different⟩ | ⟨-, old⟩
    · exact Pc.noConfusion different
    · exact Turn.noConfusion (at_.handling other one old)
  · cases room <;> exact Turn.noConfusion same
  · rcases List.mem_cons.mp member with rfl | old
    · exact at_.inTime message task rfl
    · exact at_.clean one old

theorem receive {task : Nat} {message : BootMessage}
    {rest : List BootMessage} (first : samgr.messages = message :: rest) :
    ({ samgr with messages := rest }.setPc task (.handling message)).At
      (.handling message task) := by
  have queued : turn.messages = message :: rest := at_.messages.symm.trans first
  have holds : turn = .queued message ∧ rest = [] := by
    cases turn <;> simp_all [Turn.messages]
  obtain ⟨rfl, rfl⟩ := holds
  refine ⟨at_.status, at_.sent, rfl, ⟨fun _ => Turn.noConfusion,
    fun _ => at_.started.mpr Turn.noConfusion⟩, fun other one position found => ?_,
    fun other one found => ?_, at_.steps, fun _ _ same => Turn.noConfusion same, at_.clean⟩
  · rcases pc_setPc found with ⟨-, different⟩ | ⟨-, old⟩
    · exact Pc.noConfusion different
    · exact Turn.noConfusion (at_.sending other one position old)
  · rcases pc_setPc found with ⟨rfl, same⟩ | ⟨-, old⟩
    · injection same with same
      rw [same]
    · exact Turn.noConfusion (at_.handling other one old)

theorem register :
    ({ samgr with services := samgr.services ++ [⟨samgr.status, false, false⟩] } :
      SamgrLite).At turn := by
  refine ⟨at_.status, at_.sent, at_.messages, at_.started, at_.sending, at_.handling,
    fun service member => ?_, fun message task same service member step => ?_, at_.clean⟩
  · rcases List.mem_append.mp member with old | new
    · exact at_.steps service old
    · obtain rfl := List.mem_singleton.mp new
      exact Nat.le_refl _
  · rcases List.mem_append.mp member with old | new
    · exact at_.inTime message task same service old step
    rw [List.mem_singleton.mp new, at_.status, same] at step
    have late : ¬(Turn.statusOf message).toNat ≤ message.stage.toNat := by
      cases message <;> decide
    exact absurd step late

end

theorem getUninitializedPos_eq : samgr.getUninitializedPos = samgr.services.length ↔
      ∀ service ∈ samgr.services, service.inited = true := by
  rw [SamgrLite.getUninitializedPos]
  simp

theorem initCompleted (at_ : samgr.At turn) {task pos : Nat}
    (settled : settled samgr (.transition task) = true) :
    ∃ after, (samgr.initCompleted task pos).At after := by
  have alone (other : samgr.status ≠ .bootSysWait ∧ samgr.status ≠ .bootAppWait) :
      ∃ after, (samgr.initCompleted task pos).At after := by
    refine ⟨turn, ?_⟩
    rw [SamgrLite.initCompleted]
    split
    · next wait => exact absurd wait other.1
    · next wait => exact absurd wait other.2
    · exact at_.goAlone fun _ => ⟨fun _ => Pc.noConfusion, Pc.noConfusion⟩
  rw [BootStage.settled, Bool.or_eq_true, beq_iff_eq, getUninitializedPos_eq, Bool.and_eq_true,
    bne_iff_ne, bne_iff_ne] at settled
  rcases settled with all | other
  · by_cases sys : samgr.status = .bootSysWait
    · have waiting : turn = .waiting .bootSysCompleted :=
        Turn.eq_waiting (at_.status.symm.trans sys)
      refine ⟨.sending .bootSysCompleted task, ?_⟩
      rw [SamgrLite.initCompleted, sys]
      exact at_.transition waiting all (by rw [sys]; decide)
    · by_cases app : samgr.status = .bootAppWait
      · have waiting : turn = .waiting .bootAppCompleted :=
          Turn.eq_waiting (at_.status.symm.trans app)
        refine ⟨.sending .bootAppCompleted task, ?_⟩
        rw [SamgrLite.initCompleted, app]
        exact at_.transition waiting all (by rw [app]; decide)
      · exact alone ⟨sys, app⟩
  · exact alone other

theorem respond (at_ : samgr.At turn) {task : Nat} {message : BootMessage}
    (handling : samgr.pc task = .handling message) :
    (samgr.samgrBootstrap task).At (Turn.afterHandling message) := by
  obtain rfl := at_.handling task message handling
  refine at_.samgrBootstrap task ?_ ?_ ?_ ⟨fun _ => ?_, fun _ => at_.started.mpr Turn.noConfusion⟩
    (fun _ _ same => Turn.noConfusion same) (fun other one same => ?_) fun other one same => ?_
  · cases message <;> rfl
  · cases message <;> rfl
  · cases message <;> rfl
  · cases message <;> exact Turn.noConfusion
  · cases message <;> exact Turn.noConfusion same
  · injection same with _ same
    exact same.symm

end SamgrLite.At

theorem SamgrLite.At.step {samgr next : SamgrLite} {turn : Turn} {action : Action}
    (at_ : samgr.At turn) (meets : settled samgr action = true)
    (taken : samgr.step action = some next) : ∃ after, next.At after := by
  cases action with
  | bootstrap task =>
    obtain ⟨⟨-, fresh⟩, result⟩ := ite_none_right_eq_some.mp taken
    obtain rfl := some_inj.mp result
    have start : turn = .start := by
      by_contra later
      exact absurd ((at_.started.mpr later).symm.trans fresh) (by decide)
    subst start
    exact ⟨.waiting .bootSysCompleted, at_.samgrBootstrap task rfl rfl rfl
      ⟨fun _ => Turn.noConfusion, fun _ => rfl⟩ (fun _ _ same => Turn.noConfusion same)
      (fun _ _ same => Turn.noConfusion same) fun _ _ same => Turn.noConfusion same⟩
  | initService task requested =>
    rw [SamgrLite.step] at taken
    split at taken
    · obtain rfl := some_inj.mp taken
      exact ⟨turn, at_.go (fun _ => ⟨fun _ => Pc.noConfusion, Pc.noConfusion⟩)
        (kept_modify fun _ => ⟨rfl, id⟩)⟩
    · exact absurd taken (some_ne_none _).symm
  | initialized task =>
    rw [SamgrLite.step] at taken
    split at taken
    · obtain rfl := some_inj.mp taken
      exact ⟨turn, at_.goAlone fun _ => ⟨fun _ => Pc.noConfusion, Pc.noConfusion⟩⟩
    · exact absurd taken (some_ne_none _).symm
  | finishInit task service =>
    obtain ⟨-, result⟩ := ite_none_right_eq_some.mp taken
    obtain rfl := some_inj.mp result
    exact ⟨turn, at_.go (fun _ => ⟨fun _ => Pc.noConfusion, Pc.noConfusion⟩)
      (kept_modify fun _ => ⟨rfl, fun _ => rfl⟩)⟩
  | scan task =>
    rw [SamgrLite.step] at taken
    split at taken
    · obtain rfl := some_inj.mp taken
      exact ⟨turn, at_.goAlone fun _ => ⟨fun _ => Pc.noConfusion, Pc.noConfusion⟩⟩
    · exact absurd taken (some_ne_none _).symm
  | readSize task =>
    rw [SamgrLite.step] at taken
    split at taken
    · obtain rfl := some_inj.mp taken
      refine ⟨turn, at_.goAlone fun _ => ?_⟩
      split <;> exact ⟨fun _ => Pc.noConfusion, Pc.noConfusion⟩
    · exact absurd taken (some_ne_none _).symm
  | transition task =>
    rw [SamgrLite.step] at taken
    split at taken
    · obtain rfl := some_inj.mp taken
      exact at_.initCompleted meets
    · exact absurd taken (some_ne_none _).symm
  | send task room =>
    rw [SamgrLite.step] at taken
    split at taken
    · next message pos sending =>
      obtain rfl := some_inj.mp taken
      exact ⟨_, at_.send room sending⟩
    · exact absurd taken (some_ne_none _).symm
  | receive task =>
    rw [SamgrLite.step] at taken
    split at taken
    · next message rest _ first =>
      obtain rfl := some_inj.mp taken
      exact ⟨_, at_.receive first⟩
    · exact absurd taken (some_ne_none _).symm
  | respond task =>
    rw [SamgrLite.step] at taken
    split at taken
    · next message handling =>
      obtain rfl := some_inj.mp taken
      exact ⟨_, at_.respond handling⟩
    · exact absurd taken (some_ne_none _).symm
  | register =>
    obtain rfl := some_inj.mp taken
    exact ⟨turn, at_.register⟩

/-! ### The result -/

/-- The service manager after the core services are registered, before `main` calls
`SAMGR_Bootstrap`. -/
structure Initial (samgr : SamgrLite) : Prop where
  services : ∀ service ∈ samgr.services, service.step = .bootSys
  status : samgr.status = .bootSys
  messages : samgr.messages = []
  sent : samgr.sent = []
  started : samgr.started = false
  pc : ∀ task, samgr.pc task = .user

theorem Initial.at_ {samgr : SamgrLite} (initial : Initial samgr) : samgr.At .start := by
  obtain ⟨services, status, messages, sent, started, pc⟩ := initial
  refine ⟨status, by rw [sent]; rfl, messages, ?_, fun task message pos found => ?_,
    fun task message found => ?_, fun service member => ?_, fun _ _ same => Turn.noConfusion same,
    by rw [sent]; exact List.forall_mem_nil _⟩
  · rw [started]
    exact iff_of_false Bool.false_ne_true fun different => different rfl
  · exact Pc.noConfusion ((pc task).symm.trans found)
  · exact Pc.noConfusion ((pc task).symm.trans found)
  · rw [services service member]
    exact Nat.zero_le _

/-- The messages are sent once, in order and in time, in every run in which the status goes on only
when all services are initialized. -/
theorem inOrder_of_reachable {samgr : SamgrLite}
    (reached : Reachable SamgrLite.step (fun samgr action => settled samgr action = true)
      Initial samgr) : InOrder samgr := by
  have turns : ∃ turn, samgr.At turn :=
    @Reachable.invariant _ _ _ _ _ samgr (fun samgr => ∃ turn, samgr.At turn)
      (fun _ initial => ⟨_, initial.at_⟩)
      (fun _ _ _ _ at_ meets taken => at_.elim fun _ at_ => at_.step meets taken) reached
  obtain ⟨turn, at_⟩ := turns
  exact at_.inOrder

/-! ### Runs of two core services -/

/-- Two services are registered. -/
def coreServices : SamgrLite :=
  ⟨[⟨.bootSys, false, false⟩, ⟨.bootSys, false, false⟩], .bootSys, [], [], false, fun _ => .user⟩

theorem initial_coreServices : Initial coreServices := by
  refine ⟨?_, rfl, rfl, rfl, rfl, fun _ => rfl⟩
  simp [coreServices]

/-- `main` starts the boot, and the task of each core service goes up to its scan. -/
def coreStage : List Action :=
  [.bootstrap 0, .initService 0 true, .initService 0 true, .initialized 0, .scan 0, .readSize 0,
    .finishInit 1 0, .finishInit 2 1, .scan 1, .scan 2, .readSize 1, .readSize 2]

/-- The first task sends the message of the core services; the bootstrap service registers an
application, and the message of the applications is sent when it is initialized. -/
def boot : List Action :=
  coreStage ++ [.transition 1, .transition 2, .send 1 true, .receive 3, .register, .respond 3,
    .initService 3 true, .initialized 3, .finishInit 2 2, .scan 2, .scan 3, .readSize 2,
    .transition 2, .register, .send 2 true, .receive 4, .respond 4]

theorem inOrder_of_reachable_sample : ∃ samgr,
    execute SamgrLite.step settled coreServices boot = some samgr ∧ InOrder samgr := by
  have runs : (execute SamgrLite.step settled coreServices boot).isSome = true := by
    decide
  obtain ⟨samgr, result⟩ := Option.isSome_iff_exists.mp runs
  exact ⟨samgr, result, inOrder_of_reachable
    (.of_execute (fun _ _ meets => meets) _ (.start initial_coreServices) result)⟩

/-- The second task acts on its scan of the core services when the application is waited for. -/
def staleScan : List Action :=
  coreStage ++ [.transition 1, .send 1 true, .receive 3, .register, .respond 3, .transition 2,
    .send 2 true]

/-- The message of the applications is sent while the application is not initialized. -/
theorem sent_too_early : ∃ samgr,
    execute SamgrLite.step (fun _ _ => true) coreServices staleScan = some samgr ∧
      Reachable SamgrLite.step (fun _ _ => True) Initial samgr ∧
        samgr.sent.head? = some ⟨.bootAppCompleted,
          [⟨.bootSys, true, true⟩, ⟨.bootSys, true, true⟩, ⟨.bootApp, false, false⟩]⟩ ∧
          ¬InOrder samgr := by
  have runs : (execute SamgrLite.step (fun _ _ => true) coreServices staleScan).map
      (fun samgr => samgr.sent.head?) = some (some ⟨.bootAppCompleted,
        [⟨.bootSys, true, true⟩, ⟨.bootSys, true, true⟩, ⟨.bootApp, false, false⟩]⟩) := by
    decide
  obtain ⟨samgr, result, latest⟩ := Option.map_eq_some_iff.mp runs
  refine ⟨samgr, result, .of_execute (fun _ _ _ => trivial) _ (.start initial_coreServices) result,
    latest, fun inOrder => ?_⟩
  have early := inOrder.clean _ (List.mem_of_head? latest) ⟨.bootApp, false, false⟩ (by decide)
    (by decide)
  exact absurd early (by decide)

end TowerSafe.BootStage
