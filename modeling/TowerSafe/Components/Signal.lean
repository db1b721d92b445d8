/-
This file embeds the signals of `los_signal.c` and keeps the accounts of every signal of every
task: as often as it has become pending, it has been given to the installed handler, or been
returned by a wait whose set contains it, or it still is pending. A wait that finds several signals
of its set pending clears all of them and returns one, so this needs that it finds one at most; and
a waiting task reads the signal that woke it from its signal information, so this needs that the
information is that of the signal.

Which task runs is free in the model, and so is whether memory is left. A task that waits goes on
when it has been woken or its time is over, or at once when the scheduler is locked. The stack
pointers that lead a task to `SignalEntry` are left out: that it gets there is a step.
-/

import Mathlib
import TowerSafe.Library.Transition

namespace TowerSafe.Signal

open List hiding set
open Library Option
open Function (update update_self update_of_ne)

/-! ### Signal sets -/

/-- `sigset_t`. -/
abbrev Sigset := BitVec 32

def losSignalSupportMax : Nat := 31

def losSignalMask (sigNo : Nat) : Sigset := (1 : Sigset) <<< (sigNo - 1)

def osSignalValid (sigNo : Int) : Bool := decide (0 < sigNo ∧ sigNo ≤ losSignalSupportMax)

def clz (flag : Sigset) : Nat :=
  if flag = 0 then 32 else 31 - flag.toNat.log2

def highest (flag : Sigset) : Nat := losSignalSupportMax - clz flag + 1

/-! ### The signals of a task -/

/-- A signal handler: `SignalDefaultHandler`, or one that was given. -/
inductive SigHandler where
  | signalDefaultHandler
  | handler (entry : Nat)
  deriving DecidableEq

/-- The argument of `LOS_SignalSet`: `SIG_IGN`, `SIG_DFL`, or a handler. -/
inductive SigAction where
  | sigIgn
  | sigDfl
  | handler (entry : Nat)
  deriving DecidableEq

/-- The argument `how` of `LOS_SignalMask`; all values it does not know are `other`. -/
inductive How where
  | sigBlock
  | sigSetmask
  | sigUnblock
  | other
  deriving DecidableEq

/-- `OsSigCB`, with the signal number of `sigInfo` and of the nodes of `sigInfoList`. A handler that
is `none` is `NULL`, and `waits` is `OS_SIGNAL_STATUS_WAIT` in `sigStatus`. -/
structure OsSigCB where
  sigSetFlag : Sigset := 0
  sigPendFlag : Sigset := 0
  sigWaitFlag : Sigset := 0
  sigInfo : Nat := 0
  sigHandlers : Nat → Option SigHandler := fun _ => some .signalDefaultHandler
  sigInfoList : List Nat := []
  waits : Bool := false

namespace OsSigCB

variable (sigCB : OsSigCB)

/-- `AddSigInfoToList`; `memory` is whether a node can be allocated. -/
def addSigInfoToList (sigNo : Nat) (memory : Bool) : OsSigCB × Bool :=
  if sigNo ∈ sigCB.sigInfoList then (sigCB, true)
  else if memory then ({ sigCB with sigInfoList := sigNo :: sigCB.sigInfoList }, true)
  else (sigCB, false)

def deleteSigInfoFromList (sigNo : Nat) : OsSigCB :=
  if sigNo ∈ sigCB.sigInfoList then
    { sigCB with sigInfoList := sigCB.sigInfoList.erase sigNo, sigInfo := sigNo }
  else sigCB

/-- The body of the loop of `SignalHandle` for the highest signal that is pending and set. -/
def takeSignal (sigNo : Nat) : OsSigCB :=
  let deleted := sigCB.deleteSigInfoFromList sigNo
  { deleted with sigPendFlag := deleted.sigPendFlag &&& ~~~losSignalMask sigNo }

/-- `LOS_SignalSet` of a valid signal. -/
def set (sigNo : Nat) (action : SigAction) : OsSigCB :=
  { sigCB with
    sigHandlers := update sigCB.sigHandlers (sigNo - 1)
      (match action with
        | .sigIgn => none
        | .sigDfl => some .signalDefaultHandler
        | .handler entry => some (.handler entry))
    sigSetFlag :=
      if action = .sigIgn then sigCB.sigSetFlag &&& ~~~losSignalMask sigNo
      else sigCB.sigSetFlag ||| losSignalMask sigNo }

/-- `LOS_SignalMask` of a set. -/
def mask (how : How) (set : Sigset) : OsSigCB :=
  { sigCB with
    sigSetFlag :=
      match how with
      | .sigBlock => sigCB.sigSetFlag &&& ~~~set
      | .sigSetmask => set
      | .sigUnblock => sigCB.sigSetFlag ||| set
      | .other => sigCB.sigSetFlag }

end OsSigCB

/-! ### The tasks -/

/-- Whether a task that waits is pended, has been woken, or has run out of time. -/
inductive Phase where
  | pended
  | woken
  | timedOut
  deriving DecidableEq

/-- A call of `LOS_SignalWait` that has blocked; `locked` is whether the scheduler is locked, so
that the task goes on at once. -/
structure Wait where
  set : Sigset
  forever : Bool
  locked : Bool
  phase : Phase
  deriving DecidableEq

/-- A loop of `SignalHandle` that goes on, and whether it has called a handler. -/
structure Loop where
  cleanStatus : Bool
  called : Bool
  deriving DecidableEq

/-- A task: its `sig`, whether `OS_TASK_FLAG_SIGNAL` is set, the wait it is in, and the loops of
`SignalHandle` it is in, innermost first. -/
structure Task where
  sig : Option OsSigCB := none
  flagSignal : Bool := false
  wait : Option Wait := none
  loops : List Loop := []

/-- What happens to a signal of a task. -/
inductive Event where
  /-- The signal becomes pending. -/
  | accepted (task sigNo : Nat)
  /-- The signal is given to the handler that is installed; `none` ignores it. -/
  | delivered (task sigNo : Nat) (handler : Option SigHandler)
  /-- A wait for a set returns the signal. -/
  | returned (task sigNo : Nat) (set : Sigset)
  deriving DecidableEq

/-- A call of `LOS_SignalSend` that has come to `SignalSend`. -/
structure Sending where
  task : Nat
  sigNo : Nat
  deriving DecidableEq

/-- The tasks, the calls of `LOS_SignalSend` that go on, and what has happened, latest first.
`failed` is set when a task is woken that is not pended. -/
structure Machine where
  tcb : Nat → Task
  sendings : List Sending
  log : List Event
  failed : Bool

/-- Who runs `SignalSend`: the task itself, an interrupt of it, or another task or an interrupt of
another task. -/
inductive Sender where
  | self
  | interrupt
  | other
  deriving DecidableEq

/-- A step of a task or of an interrupt handler. -/
inductive Action where
  /-- `LOS_SignalSet`; `memory` is whether a control block can be allocated. -/
  | signalSet (task : Nat) (sigNo : Int) (action : SigAction) (memory : Bool)
  /-- `LOS_SignalMask`; a set that is `none` is `NULL`. -/
  | signalMask (task : Nat) (how : How) (set : Option Sigset) (memory : Bool)
  /-- `LOS_SignalSend` up to `SignalSend`; `node` is whether a node can be allocated. -/
  | signalSend (taskID : Nat) (sigNo : Int) (memory node : Bool)
  /-- A call of `LOS_SignalSend` comes to `SignalSend`. -/
  | send (index : Nat) (sender : Sender)
  /-- `LOS_SignalWait` up to its end or to `LOS_Schedule`. -/
  | signalWait (task : Nat) (set : Option Sigset) (timeout : BitVec 32)
      (memory interrupt locked : Bool)
  /-- A task that waits comes back from `LOS_Schedule`. -/
  | resume (task : Nat)
  /-- The time of a task that waits is over. -/
  | expire (task : Nat)
  /-- `SignalHandle` takes the lock. -/
  | handle (task : Nat)
  deriving DecidableEq

/-- The error codes of the calls. -/
inductive Errno where
  | invalid
  | noMemory
  | noSet
  | timeout
  | pendInterr
  deriving DecidableEq

def losWaitForever : BitVec 32 := 0xFFFFFFFF

namespace Machine

variable (taskLimit : Nat) (machine : Machine)

/-- Change a task. -/
def modify (task : Nat) (change : Task → Task) : Machine :=
  { machine with tcb := update machine.tcb task (change (machine.tcb task)) }

/-- Change the signals of a task. -/
def setSig (task : Nat) (sigCB : OsSigCB) : Machine :=
  machine.modify task fun taskCB => { taskCB with sig := some sigCB }

def note (event : Event) : Machine :=
  { machine with log := event :: machine.log }

def signalCBInit (task : Nat) (memory : Bool) : Option OsSigCB :=
  match (machine.tcb task).sig with
  | some sigCB => some sigCB
  | none => if memory then some {} else none

/-- `LOS_SignalSet`, with the handler before; `none` is `SIG_ERR`. -/
def losSignalSet (task : Nat) (sigNo : Int) (action : SigAction) (memory : Bool) :
    Machine × Option (Option SigHandler) :=
  if osSignalValid sigNo then
    match machine.signalCBInit task memory with
    | none => (machine, none)
    | some sigCB =>
        (machine.setSig task (sigCB.set sigNo.toNat action),
          some (sigCB.sigHandlers (sigNo.toNat - 1)))
  else (machine, none)

/-- `LOS_SignalMask`, with what it writes to `oldSet`. -/
def losSignalMask (task : Nat) (how : How) (set : Option Sigset) (memory : Bool) :
    Machine × Option Sigset × Option Errno :=
  match machine.signalCBInit task memory with
  | none => (machine, none, some .noMemory)
  | some sigCB =>
      match set with
      | none => (machine.setSig task sigCB, some sigCB.sigSetFlag, some .invalid)
      | some set => (machine.setSig task (sigCB.mask how set), some sigCB.sigSetFlag, none)

/-- `LOS_SignalSend` up to `SignalSend`. -/
def losSignalSend (taskID : Nat) (sigNo : Int) (memory node : Bool) : Machine × Option Errno :=
  if taskID > taskLimit then (machine, some .invalid)
  else if osSignalValid sigNo then
    match machine.signalCBInit taskID memory with
    | none => (machine, some .noMemory)
    | some sigCB =>
        if sigCB.sigSetFlag &&& Signal.losSignalMask sigNo.toNat = 0 then
          (machine.setSig taskID sigCB, some .noSet)
        else
          let added := sigCB.addSigInfoToList sigNo.toNat node
          if added.2 then
            ({ machine.setSig taskID added.1 with
                sendings := ⟨taskID, sigNo.toNat⟩ :: machine.sendings }, none)
          else (machine.setSig taskID added.1, some .noMemory)
  else (machine, some .invalid)

/-- The start of `SignalSend`: the signal becomes pending. -/
def pend (task : Nat) (sigCB : OsSigCB) (sigNo : Nat) : Machine :=
  if sigCB.sigPendFlag &&& Signal.losSignalMask sigNo = 0 then
    (machine.setSig task
      { sigCB with sigPendFlag := sigCB.sigPendFlag ||| Signal.losSignalMask sigNo }).note
        (.accepted task sigNo)
  else machine

/-- `SignalSend` for a task that waits: it is woken when it waits for the signal. -/
def wakeWaiter (task sigNo : Nat) : Machine :=
  match (machine.tcb task).sig with
  | none => machine
  | some sigCB =>
      if sigCB.sigWaitFlag &&& Signal.losSignalMask sigNo = 0 then machine
      else
        { machine.modify task fun taskCB =>
            { taskCB with
              sig := some (sigCB.deleteSigInfoFromList sigNo)
              flagSignal := true
              wait := taskCB.wait.map fun wait => { wait with phase := .woken } } with
          failed := machine.failed ||
            decide ((machine.tcb task).wait.map Wait.phase ≠ some .pended) }

/-- The end of `SignalSend`, after the signal has become pending. -/
def signalSent (task sigNo : Nat) (waits : Bool) : Sender → Machine
  | .self => machine.modify task fun taskCB =>
      { taskCB with flagSignal := true, loops := ⟨true, false⟩ :: taskCB.loops }
  | .interrupt => machine.modify task fun taskCB => { taskCB with flagSignal := true }
  | .other =>
      if waits then machine.wakeWaiter task sigNo
      else if (machine.tcb task).flagSignal then machine
      else machine.modify task fun taskCB =>
        { taskCB with flagSignal := true, loops := ⟨false, false⟩ :: taskCB.loops }

/-- `SignalSend`. A task that is in a wait does not send a signal to itself. -/
def signalSend (sending : Sending) (sender : Sender) : Option Machine :=
  if sender = .self ∧ (machine.tcb sending.task).wait ≠ none then none
  else
    match (machine.tcb sending.task).sig with
    | none => some machine
    | some sigCB =>
        some ((machine.pend sending.task sigCB sending.sigNo).signalSent sending.task
          sending.sigNo sigCB.waits sender)

/-- `LOS_SignalWait` up to its end or to `LOS_Schedule`. -/
def losSignalWait (task : Nat) (set : Option Sigset) (timeout : BitVec 32)
    (memory interrupt locked : Bool) : Machine × Option Errno :=
  match set with
  | none => (machine, some .invalid)
  | some set =>
      if set = 0 then (machine, some .invalid)
      else
        match machine.signalCBInit task memory with
        | none => (machine, some .noMemory)
        | some sigCB =>
            let sigFlag := sigCB.sigPendFlag &&& set
            if sigFlag ≠ 0 then
              let cleared := { sigCB with sigPendFlag := sigCB.sigPendFlag ^^^ sigFlag }
              ((machine.setSig task (cleared.deleteSigInfoFromList (highest sigFlag))).note
                (.returned task (highest sigFlag) set), none)
            else if timeout = 0 then (machine.setSig task sigCB, some .invalid)
            else if interrupt then (machine.setSig task sigCB, some .pendInterr)
            else
              (machine.modify task fun taskCB =>
                { taskCB with
                  sig := some
                    { sigCB with sigWaitFlag := sigCB.sigWaitFlag ||| set, waits := true }
                  wait := some ⟨set, decide (timeout = losWaitForever), locked, .pended⟩ }, none)

/-- The end of `SignalTimedWait`, after `LOS_Schedule`. -/
def signalResumed (task : Nat) (sigCB : OsSigCB) (wait : Wait) : Machine :=
  let ended := { sigCB with sigWaitFlag := 0, waits := false }
  if wait.phase = .timedOut then
    machine.modify task fun taskCB =>
      { taskCB with sig := some ended, flagSignal := false, wait := none }
  else
    (machine.modify task fun taskCB =>
      { taskCB with
        sig := some
          { ended with sigPendFlag := sigCB.sigPendFlag &&& ~~~Signal.losSignalMask sigCB.sigInfo }
        flagSignal := false
        wait := none }).note (.returned task sigCB.sigInfo wait.set)

/-- A turn of the loop of `SignalHandle`, with what follows the handler of the turn before, and
with the end of `SignalEntry` behind the last turn of its loop. -/
def signalHandle (task : Nat) (sigCB : OsSigCB) (loop : Loop) (rest : List Loop) : Machine :=
  let flag := (machine.tcb task).flagSignal && !(loop.cleanStatus && loop.called)
  let sigFlag := sigCB.sigPendFlag &&& sigCB.sigSetFlag
  if sigFlag ≠ 0 then
    (machine.modify task fun taskCB =>
      { taskCB with
        sig := some (sigCB.takeSignal (highest sigFlag))
        flagSignal := flag
        loops := { loop with called := true } :: rest }).note
          (.delivered task (highest sigFlag) (sigCB.sigHandlers (highest sigFlag - 1)))
  else
    machine.modify task fun taskCB =>
      { taskCB with flagSignal := flag && loop.cleanStatus, loops := rest }

def step : Action → Option Machine
  | .signalSet task sigNo action memory => some (machine.losSignalSet task sigNo action memory).1
  | .signalMask task how set memory => some (machine.losSignalMask task how set memory).1
  | .signalSend taskID sigNo memory node =>
      some (machine.losSignalSend taskLimit taskID sigNo memory node).1
  | .send index sender =>
      match machine.sendings[index]? with
      | none => none
      | some sending =>
          ({ machine with sendings := machine.sendings.eraseIdx index }).signalSend sending sender
  | .signalWait task set timeout memory interrupt locked =>
      if interrupt = false ∧ (machine.tcb task).wait ≠ none then none
      else some (machine.losSignalWait task set timeout memory interrupt locked).1
  | .resume task =>
      match (machine.tcb task).sig, (machine.tcb task).wait with
      | some sigCB, some wait =>
          if wait.phase = .pended ∧ wait.locked = false then none
          else some (machine.signalResumed task sigCB wait)
      | _, _ => none
  | .expire task =>
      match (machine.tcb task).wait with
      | some wait =>
          if wait.phase = .pended ∧ wait.forever = false then
            some (machine.modify task fun taskCB =>
              { taskCB with wait := some { wait with phase := .timedOut } })
          else none
      | none => none
  | .handle task =>
      match (machine.tcb task).wait, (machine.tcb task).sig, (machine.tcb task).loops with
      | none, some sigCB, loop :: rest => some (machine.signalHandle task sigCB loop rest)
      | _, _, _ => none

end Machine

/-! ### Bits -/

theorem getLsbD_losSignalMask {sigNo index : Nat} (low : index < 32) :
    (losSignalMask sigNo).getLsbD index = decide (index = sigNo - 1) := by
  rw [losSignalMask, BitVec.getLsbD_shiftLeft]
  by_cases same : index = sigNo - 1
  · simp [same, same ▸ low]
  rw [decide_eq_false same]
  rcases Nat.lt_or_ge index (sigNo - 1) with below | above
  · simp [below]
  have other : (1#32).getLsbD (index - (sigNo - 1)) = false := by
    rw [BitVec.getLsbD_one]
    simp only [Bool.and_eq_false_iff, decide_eq_false_iff_not]
    omega
  simpa using fun _ _ => other

def Has (flag : Sigset) (sigNo : Nat) : Prop := flag.getLsbD (sigNo - 1) = true

instance (flag : Sigset) (sigNo : Nat) : Decidable (Has flag sigNo) :=
  inferInstanceAs (Decidable (_ = _))

section Bits

variable {flag other : Sigset} {sigNo one : Nat}

theorem and_losSignalMask_ne_zero_iff (real : 0 < sigNo) (low : sigNo ≤ 32) :
    flag &&& losSignalMask sigNo ≠ 0 ↔ Has flag sigNo := by
  constructor
  · intro some
    by_contra missing
    refine some (BitVec.eq_of_getLsbD_eq fun index low => ?_)
    rw [BitVec.getLsbD_and, getLsbD_losSignalMask low]
    by_cases same : index = sigNo - 1
    · rw [same, Bool.eq_false_iff.mpr missing]
      simp
    · simp [same]
  · intro has none
    have bit := congrArg (fun bits => bits.getLsbD (sigNo - 1)) none
    simp only [BitVec.getLsbD_and] at bit
    rw [show flag.getLsbD (sigNo - 1) = true from has, getLsbD_losSignalMask (by omega)] at bit
    simp at bit

theorem has_or_iff (real : 0 < sigNo) (low : sigNo ≤ 32) (realOne : 0 < one) :
    Has (flag ||| losSignalMask one) sigNo ↔ Has flag sigNo ∨ sigNo = one := by
  rw [Has, BitVec.getLsbD_or, getLsbD_losSignalMask (by omega), Bool.or_eq_true, decide_eq_true_iff]
  exact or_congr_right (by omega)

theorem has_and_not_iff (real : 0 < sigNo) (low : sigNo ≤ 32) (realOne : 0 < one) :
    Has (flag &&& ~~~losSignalMask one) sigNo ↔ Has flag sigNo ∧ sigNo ≠ one := by
  rw [Has, BitVec.getLsbD_and, BitVec.getLsbD_not, getLsbD_losSignalMask (by omega)]
  simp only [Bool.and_eq_true, decide_eq_true_eq, Bool.not_eq_true', decide_eq_false_iff_not]
  have same : sigNo - 1 = one - 1 ↔ sigNo = one := by omega
  rw [same]
  exact and_congr_right fun _ => and_iff_right (by omega)

theorem has_highest (some : flag ≠ 0) :
    Has flag (highest flag) ∧ 0 < highest flag ∧ highest flag ≤ 32 := by
  have value : flag.toNat ≠ 0 := fun zero => some (BitVec.eq_of_toNat_eq zero)
  have low : flag.toNat.log2 < 32 := (Nat.log2_lt value).mpr flag.isLt
  have number : highest flag = flag.toNat.log2 + 1 := by
    rw [highest, clz, if_neg some, losSignalSupportMax]
    omega
  rw [number]
  exact ⟨Nat.testBit_log2 value, Nat.succ_pos _, low⟩

end Bits

/-! ### The accounts -/

/-- What happened ends a signal of a task: it is given to its handler, or returned by a wait whose
set contains it. -/
def Event.closes (task sigNo : Nat) : Event → Bool
  | .accepted _ _ => false
  | .delivered one signal _ => decide (one = task ∧ signal = sigNo)
  | .returned one signal set => decide (one = task ∧ signal = sigNo ∧ Has set sigNo)

def Task.pendings (taskCB : Task) (sigNo : Nat) : Nat :=
  match taskCB.sig with
  | none => 0
  | some sigCB => if Has sigCB.sigPendFlag sigNo then 1 else 0

/-- As often as a signal has become pending, it has been delivered, or been returned by a wait whose
set contains it, or it is pending. No task has been woken that was not pended. -/
structure Machine.InOrder (machine : Machine) : Prop where
  accounts : ∀ (task sigNo : Nat), osSignalValid sigNo = true →
    machine.log.count (.accepted task sigNo) =
      machine.log.countP (Event.closes task sigNo) + (machine.tcb task).pendings sigNo
  intact : machine.failed = false

/-- A waiting task that is sent a signal it waits for is still pended, and its signal information is
on the list or that of the signal already; a wait finds at most one signal of its set pending,
blocks only while the scheduler is not locked, and an interrupt does not take a signal from a task
that has been woken. -/
def InTime (machine : Machine) : Action → Prop
  | .send index sender => ∀ sending ∈ machine.sendings[index]?, sender = .other →
      ∀ sigCB ∈ (machine.tcb sending.task).sig, sigCB.waits = true →
        sigCB.sigWaitFlag &&& losSignalMask sending.sigNo ≠ 0 →
          (machine.tcb sending.task).wait.map Wait.phase = some .pended ∧
            (sending.sigNo ∈ sigCB.sigInfoList ∨ sigCB.sigInfo = sending.sigNo)
  | .signalWait task set timeout memory interrupt locked => ∀ flag ∈ set, flag ≠ 0 →
      ∀ sigCB ∈ machine.signalCBInit task memory,
        (sigCB.sigPendFlag &&& flag ≠ 0 →
          sigCB.sigPendFlag &&& flag = losSignalMask (highest (sigCB.sigPendFlag &&& flag)) ∧
            (machine.tcb task).wait.map Wait.phase ≠ some .woken) ∧
        (sigCB.sigPendFlag &&& flag = 0 → timeout ≠ 0 → interrupt = false → locked = false)
  | _ => True

instance (machine : Machine) (action : Action) : Decidable (InTime machine action) := by
  cases action with
  | signalWait task set timeout memory interrupt locked =>
    exact @Option.decidableForallMem _ _ (fun _ => inferInstanceAs (Decidable (_ → _))) set
  | _ =>
    unfold InTime
    infer_instance

/-- The signals of a task that is not in a wait, or in one. -/
structure Task.Good (taskCB : Task) : Prop where
  awake : taskCB.wait = none → ∀ sigCB ∈ taskCB.sig, sigCB.waits = false ∧ sigCB.sigWaitFlag = 0
  waiting : ∀ wait ∈ taskCB.wait, wait.locked = false ∧ ∃ sigCB, taskCB.sig = some sigCB ∧
    sigCB.waits = true ∧ sigCB.sigWaitFlag = wait.set ∧
      (wait.phase = .woken → 0 < sigCB.sigInfo ∧ sigCB.sigInfo ≤ 32 ∧
        Has wait.set sigCB.sigInfo ∧ Has sigCB.sigPendFlag sigCB.sigInfo)

/-- What every state of a run keeps. -/
structure Machine.Balanced (machine : Machine) : Prop where
  accounts : ∀ task sigNo, 0 < sigNo → sigNo ≤ 32 →
    machine.log.count (.accepted task sigNo) =
      machine.log.countP (Event.closes task sigNo) + (machine.tcb task).pendings sigNo
  good : ∀ task, (machine.tcb task).Good
  sendings : ∀ sending ∈ machine.sendings, 0 < sending.sigNo ∧ sending.sigNo ≤ 31
  intact : machine.failed = false

/-- The task that something happens to. -/
def Event.task : Event → Nat
  | .accepted task _ => task
  | .delivered task _ _ => task
  | .returned task _ _ => task

namespace Machine.Balanced

variable {machine next : Machine} {task : Nat}

theorem move {events : List Event} (balanced : machine.Balanced)
    (others : ∀ other, other ≠ task → next.tcb other = machine.tcb other)
    (log : next.log = events ++ machine.log) (own : ∀ event ∈ events, event.task = task)
    (flow : ∀ sigNo, 0 < sigNo → sigNo ≤ 32 →
      events.count (.accepted task sigNo) + (machine.tcb task).pendings sigNo =
        events.countP (Event.closes task sigNo) + (next.tcb task).pendings sigNo)
    (good : (next.tcb task).Good)
    (sendings : ∀ sending ∈ next.sendings, 0 < sending.sigNo ∧ sending.sigNo ≤ 31)
    (intact : next.failed = false) : next.Balanced where
  accounts other sigNo real low := by
    have before := balanced.accounts other sigNo real low
    rw [log, count_append, countP_append]
    by_cases same : other = task
    · have change := flow sigNo real low
      rw [same] at before ⊢
      omega
    have none : events.count (.accepted other sigNo) = 0 := by
      refine List.count_eq_zero.mpr fun member => same ?_
      exact own _ member
    have open_ : events.countP (Event.closes other sigNo) = 0 := by
      refine countP_eq_zero.mpr fun event member closes => same ?_
      have belongs := own event member
      cases event <;> simp_all [Event.closes, Event.task]
    rw [others other same]
    omega
  good other := by
    by_cases same : other = task
    · rw [same]
      exact good
    · rw [others other same]
      exact balanced.good other
  sendings := sendings
  intact := intact

theorem pendings_of_init {memory : Bool} {sigCB : OsSigCB}
    (init : machine.signalCBInit task memory = some sigCB) (sigNo : Nat) :
    (machine.tcb task).pendings sigNo = if Has sigCB.sigPendFlag sigNo then 1 else 0 := by
  rw [signalCBInit] at init
  rw [Task.pendings]
  cases sig : (machine.tcb task).sig with
  | some old =>
    rw [sig] at init
    rw [some.inj init]
  | none =>
    rw [sig] at init
    cases memory with
    | false => exact absurd init nofun
    | true =>
      rw [← some.inj init, if_neg (by simp [Has])]

section

variable (balanced : machine.Balanced)
include balanced

theorem quiet {memory : Bool} {sigCB new : OsSigCB}
    {sendings : List Sending} (init : machine.signalCBInit task memory = some sigCB)
    (same : new.sigPendFlag = sigCB.sigPendFlag ∧ new.sigWaitFlag = sigCB.sigWaitFlag ∧
      new.sigInfo = sigCB.sigInfo ∧ new.waits = sigCB.waits)
    (valid : ∀ sending ∈ sendings, 0 < sending.sigNo ∧ sending.sigNo ≤ 31) :
    Machine.Balanced { machine.setSig task new with sendings := sendings } := by
  obtain ⟨pend, flag, info, waits⟩ := same
  have here : (machine.setSig task new).tcb task = { machine.tcb task with sig := some new } :=
    update_self ..
  refine @move _ _ task [] balanced (fun other different => update_of_ne different _ _)
    rfl (by simp) (fun sigNo _ _ => ?_) ?_ valid balanced.intact
  · show 0 + (machine.tcb task).pendings sigNo =
      0 + ((machine.setSig task new).tcb task).pendings sigNo
    rw [pendings_of_init init, here, Task.pendings]
    dsimp only
    rw [pend]
  · rw [here]
    have good := balanced.good task
    rw [signalCBInit] at init
    refine ⟨fun awake other member => ?_, fun wait waiting => ?_⟩
    · obtain rfl := some.inj (mem_def.mp member)
      cases sig : (machine.tcb task).sig with
      | some old =>
        rw [sig] at init
        rw [flag, waits]
        exact good.awake awake sigCB (sig.trans init)
      | none =>
        rw [sig] at init
        cases memory with
        | false => exact absurd init nofun
        | true =>
          rw [flag, waits, ← some.inj init]
          exact ⟨rfl, rfl⟩
    · obtain ⟨locked, old, sig, was⟩ := good.waiting wait waiting
      rw [sig] at init
      rw [some.inj init] at was
      refine ⟨locked, new, rfl, ?_⟩
      rw [waits, flag, info, pend]
      exact was

theorem signalSet (sigNo : Int) (action : SigAction)
    (memory : Bool) : (machine.losSignalSet task sigNo action memory).1.Balanced := by
  rw [losSignalSet]
  split
  · split
    · exact balanced
    · rename_i sigCB init
      exact balanced.quiet init ⟨rfl, rfl, rfl, rfl⟩ balanced.sendings
  · exact balanced

theorem signalMask (how : How) (set : Option Sigset)
    (memory : Bool) : (machine.losSignalMask task how set memory).1.Balanced := by
  rw [Machine.losSignalMask]
  split
  · exact balanced
  rename_i sigCB init
  split
  · exact balanced.quiet init ⟨rfl, rfl, rfl, rfl⟩ balanced.sendings
  · exact balanced.quiet init ⟨rfl, rfl, rfl, rfl⟩ balanced.sendings

theorem losSignalSend (taskLimit : Nat) (sigNo : Int)
    (memory node : Bool) : (machine.losSignalSend taskLimit task sigNo memory node).1.Balanced := by
  rw [Machine.losSignalSend]
  split
  · exact balanced
  split
  · rename_i valid
    rw [osSignalValid, decide_eq_true_iff, losSignalSupportMax] at valid
    split
    · exact balanced
    rename_i sigCB init
    have same : (sigCB.addSigInfoToList sigNo.toNat node).1.sigPendFlag = sigCB.sigPendFlag ∧
        (sigCB.addSigInfoToList sigNo.toNat node).1.sigWaitFlag = sigCB.sigWaitFlag ∧
        (sigCB.addSigInfoToList sigNo.toNat node).1.sigInfo = sigCB.sigInfo ∧
        (sigCB.addSigInfoToList sigNo.toNat node).1.waits = sigCB.waits := by
      rw [OsSigCB.addSigInfoToList]
      split
      · exact ⟨rfl, rfl, rfl, rfl⟩
      split
      · exact ⟨rfl, rfl, rfl, rfl⟩
      · exact ⟨rfl, rfl, rfl, rfl⟩
    split
    · exact balanced.quiet init ⟨rfl, rfl, rfl, rfl⟩ balanced.sendings
    dsimp only
    split
    · refine balanced.quiet init same fun sending member => ?_
      rcases mem_cons.mp member with rfl | old
      · dsimp only
        omega
      · exact balanced.sendings sending old
    · exact balanced.quiet init same balanced.sendings
  · exact balanced

end

theorem pend_tcb {sigCB : OsSigCB} {sigNo : Nat} (sig : (machine.tcb task).sig = some sigCB)
    (real : 0 < sigNo) (low : sigNo ≤ 32) :
    (machine.pend task sigCB sigNo).tcb task = { machine.tcb task with sig := some { sigCB with
        sigPendFlag := sigCB.sigPendFlag ||| Signal.losSignalMask sigNo } } := by
  rw [pend]
  split
  · exact update_self ..
  rename_i pending
  have has := (and_losSignalMask_ne_zero_iff real low).mp pending
  have same : sigCB.sigPendFlag ||| Signal.losSignalMask sigNo = sigCB.sigPendFlag := by
    refine BitVec.eq_of_getLsbD_eq fun index low => ?_
    rw [BitVec.getLsbD_or, getLsbD_losSignalMask low]
    by_cases here : index = sigNo - 1
    · rw [here, show sigCB.sigPendFlag.getLsbD (sigNo - 1) = true from has, Bool.true_or]
    · simp [here]
  rw [same, ← sig]

section

variable (balanced : machine.Balanced)
include balanced

theorem pend {sigCB : OsSigCB} {sigNo : Nat}
    (sig : (machine.tcb task).sig = some sigCB) (real : 0 < sigNo) (low : sigNo ≤ 31) :
    (machine.pend task sigCB sigNo).Balanced := by
  have after := pend_tcb sig real (by omega)
  have good : ((machine.pend task sigCB sigNo).tcb task).Good := by
    rw [after]
    refine ⟨fun awake other member => ?_, fun wait waiting => ?_⟩
    · obtain rfl := some.inj (mem_def.mp member)
      exact (balanced.good task).awake awake sigCB sig
    · obtain ⟨locked, old, same, waits, flag, woken⟩ := (balanced.good task).waiting wait waiting
      obtain rfl := some.inj (sig.symm.trans same)
      refine ⟨locked, _, rfl, waits, flag, fun phase => ?_⟩
      obtain ⟨some, below, inSet, has⟩ := woken phase
      exact ⟨some, below, inSet, (has_or_iff some below real).mpr (.inl has)⟩
  rw [Machine.pend] at good after ⊢
  split
  · rename_i fresh
    rw [if_pos fresh] at good after
    refine @move _ _ task [.accepted task sigNo] balanced
      (fun other different => update_of_ne different _ _) rfl (by simp [Event.task])
      (fun one realOne lowOne => ?_) good balanced.sendings balanced.intact
    have missing : ¬Has sigCB.sigPendFlag sigNo := fun has =>
      (and_losSignalMask_ne_zero_iff real (by omega)).mpr has fresh
    rw [after, Task.pendings, sig, Task.pendings]
    simp only [has_or_iff realOne lowOne real, count_singleton, countP_singleton,
      Event.closes]
    by_cases same : one = sigNo
    · simp [same, missing]
    · simp [same, Ne.symm same]
  · exact balanced

theorem modify {change : Task → Task}
    (sig : (change (machine.tcb task)).sig = (machine.tcb task).sig)
    (wait : (change (machine.tcb task)).wait = (machine.tcb task).wait) :
    (machine.modify task change).Balanced := by
  have here : (machine.modify task change).tcb task = change (machine.tcb task) := update_self ..
  refine @move _ _ task [] balanced (fun other different => update_of_ne different _ _) rfl
    (by simp) (fun sigNo _ _ => ?_) ?_ balanced.sendings balanced.intact
  · rw [here, Task.pendings, Task.pendings, sig]
    simp
  · rw [here]
    have good := balanced.good task
    exact ⟨fun awake => sig ▸ good.awake (wait ▸ awake),
      fun one waiting => sig ▸ good.waiting one (wait ▸ waiting)⟩

theorem wakeWaiter {sigCB : OsSigCB} {sigNo : Nat}
    (sig : (machine.tcb task).sig = some sigCB) (waits : sigCB.waits = true) (real : 0 < sigNo)
    (low : sigNo ≤ 31) (pending : Has sigCB.sigPendFlag sigNo)
    (meets : sigCB.sigWaitFlag &&& Signal.losSignalMask sigNo ≠ 0 →
      (machine.tcb task).wait.map Wait.phase = some .pended ∧
        (sigNo ∈ sigCB.sigInfoList ∨ sigCB.sigInfo = sigNo)) :
    (machine.wakeWaiter task sigNo).Balanced := by
  rw [Machine.wakeWaiter, sig]
  dsimp only
  split
  · exact balanced
  rename_i waited
  obtain ⟨pended, known⟩ := meets waited
  have inSet := (and_losSignalMask_ne_zero_iff real (by omega)).mp waited
  have deleted : (sigCB.deleteSigInfoFromList sigNo).sigPendFlag = sigCB.sigPendFlag ∧
      (sigCB.deleteSigInfoFromList sigNo).sigWaitFlag = sigCB.sigWaitFlag ∧
      (sigCB.deleteSigInfoFromList sigNo).waits = sigCB.waits ∧
      (sigCB.deleteSigInfoFromList sigNo).sigInfo = sigNo := by
    rw [OsSigCB.deleteSigInfoFromList]
    split
    · exact ⟨rfl, rfl, rfl, rfl⟩
    · rename_i absent
      exact ⟨rfl, rfl, rfl, known.resolve_left absent⟩
  obtain ⟨pend, flag, same, info⟩ := deleted
  refine @move _ _ task [] balanced (fun other different => update_of_ne different _ _) rfl
    (by simp) (fun one _ _ => ?_) ?_ balanced.sendings ?_
  · simp only [Machine.modify, update_self, Task.pendings, sig, pend]
    simp
  · simp only [Machine.modify, update_self]
    refine ⟨fun awake => ?_, fun wait waiting => ?_⟩
    · have none := map_eq_none_iff.mp awake
      simp [none] at pended
    · obtain ⟨old, before, rfl⟩ := map_eq_some_iff.mp (mem_def.mp waiting)
      obtain ⟨locked, one, is, -, set, -⟩ := (balanced.good task).waiting old before
      obtain rfl := some.inj (sig.symm.trans is)
      refine ⟨locked, _, rfl, same.trans waits, flag.trans set, fun _ => ?_⟩
      rw [info, pend, ← set]
      exact ⟨real, by omega, inSet, pending⟩
  · simp [balanced.intact, pended]

theorem signalSend {sending : Sending} {sender : Sender}
    (valid : 0 < sending.sigNo ∧ sending.sigNo ≤ 31)
    (meets : sender = .other → ∀ sigCB ∈ (machine.tcb sending.task).sig, sigCB.waits = true →
      sigCB.sigWaitFlag &&& Signal.losSignalMask sending.sigNo ≠ 0 →
        (machine.tcb sending.task).wait.map Wait.phase = some .pended ∧
          (sending.sigNo ∈ sigCB.sigInfoList ∨ sigCB.sigInfo = sending.sigNo))
    (result : machine.signalSend sending sender = some next) : next.Balanced := by
  obtain ⟨real, low⟩ := valid
  rw [Machine.signalSend] at result
  split at result
  · exact absurd result nofun
  cases sig : (machine.tcb sending.task).sig with
  | none =>
    rw [sig] at result
    exact some.inj result ▸ balanced
  | some sigCB =>
    rw [sig] at result
    obtain rfl := some.inj result
    have pended := balanced.pend sig real low
    have after := pend_tcb sig real (show sending.sigNo ≤ 32 by omega)
    cases sender with
    | self =>
      rw [signalSent]
      exact pended.modify rfl rfl
    | interrupt =>
      rw [signalSent]
      exact pended.modify rfl rfl
    | other =>
      rw [signalSent]
      split
      · rename_i waits
        refine pended.wakeWaiter (congrArg Task.sig after) waits real low
          ((has_or_iff real (by omega) real).mpr (.inr rfl)) fun waited => ?_
        rw [congrArg Task.wait after]
        exact meets rfl sigCB sig waits waited
      split
      · exact pended
      · exact pended.modify rfl rfl

end

theorem pendings_taken {flag taken : Sigset} {sigNo one : Nat}
    (has : Has flag one) (left : Has taken sigNo ↔ Has flag sigNo ∧ sigNo ≠ one) :
    (if Has flag sigNo then 1 else 0) =
      (if one = sigNo then 1 else 0) + if Has taken sigNo then 1 else 0 := by
  by_cases same : one = sigNo
  · rw [← same] at left ⊢
    simp [has, left]
  · by_cases set : Has flag sigNo
    · simp [set, left, same, Ne.symm same]
    · simp [set, left, same]

section

variable (balanced : machine.Balanced)
include balanced

theorem signalWait {set : Option Sigset} {timeout : BitVec 32}
    {memory interrupt locked : Bool} (awake : interrupt = false → (machine.tcb task).wait = none)
    (meets : InTime machine (.signalWait task set timeout memory interrupt locked)) :
    (machine.losSignalWait task set timeout memory interrupt locked).1.Balanced := by
  cases set with
  | none => exact balanced
  | some set =>
    rw [losSignalWait]
    split
    · exact balanced
    rename_i nonempty
    split
    · exact balanced
    rename_i sigCB init
    obtain ⟨single, blocks⟩ := meets set rfl nonempty sigCB init
    dsimp only
    split
    · rename_i found
      obtain ⟨only, phase⟩ := single found
      obtain ⟨has, real, low⟩ := has_highest found
      generalize highest (sigCB.sigPendFlag &&& set) = sigNo at only has real low ⊢
      have both : Has sigCB.sigPendFlag sigNo ∧ Has set sigNo := by
        rw [Has, BitVec.getLsbD_and, Bool.and_eq_true] at has
        exact has
      have deleted : ∀ cleared : OsSigCB,
          (cleared.deleteSigInfoFromList sigNo).sigPendFlag = cleared.sigPendFlag ∧
          (cleared.deleteSigInfoFromList sigNo).sigWaitFlag = cleared.sigWaitFlag ∧
          (cleared.deleteSigInfoFromList sigNo).waits = cleared.waits := by
        intro cleared
        rw [OsSigCB.deleteSigInfoFromList]
        split
        · exact ⟨rfl, rfl, rfl⟩
        · exact ⟨rfl, rfl, rfl⟩
      have left : ∀ one, 0 < one → one ≤ 32 →
          (Has (sigCB.sigPendFlag ^^^ (sigCB.sigPendFlag &&& set)) one ↔
            Has sigCB.sigPendFlag one ∧ one ≠ sigNo) := by
        intro one realOne lowOne
        rw [only, Has, BitVec.getLsbD_xor, getLsbD_losSignalMask (by omega)]
        by_cases same : one = sigNo
        · rw [same, show sigCB.sigPendFlag.getLsbD (sigNo - 1) = true from both.1]
          simp
        · rw [decide_eq_false (by omega), Bool.xor_false]
          exact (and_iff_left same).symm
      obtain ⟨pend, flag, waits⟩ := deleted
        { sigCB with sigPendFlag := sigCB.sigPendFlag ^^^ (sigCB.sigPendFlag &&& set) }
      generalize OsSigCB.deleteSigInfoFromList _ sigNo = after at pend flag waits ⊢
      have here : (machine.setSig task after).tcb task =
          { machine.tcb task with sig := some after } := update_self ..
      refine @move _ _ task [.returned task sigNo set] balanced
        (fun other different => update_of_ne different _ _) rfl (by simp [Event.task])
        (fun one realOne lowOne => ?_) ?_ balanced.sendings balanced.intact
      · show _ + (machine.tcb task).pendings one =
          _ + ((machine.setSig task after).tcb task).pendings one
        rw [pendings_of_init init, pendings_taken both.1 (left one realOne lowOne), here,
          Task.pendings]
        dsimp only
        rw [pend]
        simp only [count_singleton, countP_singleton, Event.closes]
        by_cases same : sigNo = one
        · simp [same, same ▸ both.2]
        · simp [same]
      · show ((machine.setSig task after).tcb task).Good
        rw [here]
        have sig : (machine.tcb task).sig = some sigCB := by
          rw [signalCBInit] at init
          split at init
          · rename_i sig
            rw [sig, init]
          split at init
          · rw [← some.inj init] at found
            simp at found
          · exact absurd init nofun
        refine ⟨fun awake other member => ?_, fun wait waiting => ?_⟩
        · obtain rfl := some.inj (mem_def.mp member)
          obtain ⟨off, zero⟩ := (balanced.good task).awake awake sigCB sig
          exact ⟨waits.trans off, flag.trans zero⟩
        · obtain ⟨free, old, is, on, same, -⟩ := (balanced.good task).waiting wait waiting
          obtain rfl := some.inj (sig.symm.trans is)
          refine ⟨free, after, rfl, waits.trans on, flag.trans same, fun woken => ?_⟩
          rw [mem_def.mp waiting, map_some, woken] at phase
          exact absurd rfl phase
    split
    · exact balanced.quiet init ⟨rfl, rfl, rfl, rfl⟩ balanced.sendings
    split
    · exact balanced.quiet init ⟨rfl, rfl, rfl, rfl⟩ balanced.sendings
    rename_i nothing later task_level
    have idle := awake (Bool.eq_false_iff.mpr task_level)
    have free := blocks (not_not.mp nothing) later (Bool.eq_false_iff.mpr task_level)
    have zero : sigCB.sigWaitFlag = 0 := by
      rw [signalCBInit] at init
      split at init
      · rename_i sig
        exact ((balanced.good task).awake idle sigCB (sig.trans init)).2
      · split at init
        · rw [← some.inj init]
        · exact absurd init nofun
    refine @move _ _ task [] balanced (fun other different => update_of_ne different _ _)
      rfl (by simp) (fun one _ _ => ?_) ?_ balanced.sendings balanced.intact
    · rw [pendings_of_init init]
      simp [Machine.modify, Task.pendings]
    · simp only [Machine.modify, update_self]
      refine ⟨nofun, fun wait waiting => ?_⟩
      obtain rfl := some.inj (mem_def.mp waiting)
      refine ⟨free, _, rfl, rfl, ?_, nofun⟩
      rw [zero]
      exact BitVec.zero_or

theorem signalResumed {sigCB : OsSigCB} {wait : Wait}
    (sig : (machine.tcb task).sig = some sigCB) (waiting : (machine.tcb task).wait = some wait)
    (goes : ¬(wait.phase = .pended ∧ wait.locked = false)) :
    (machine.signalResumed task sigCB wait).Balanced := by
  obtain ⟨free, old, is, -, -, woken⟩ := (balanced.good task).waiting wait waiting
  obtain rfl := some.inj (sig.symm.trans is)
  rw [Machine.signalResumed]
  split
  · refine @move _ _ task [] balanced (fun other different => update_of_ne different _ _)
      rfl (by simp) (fun one _ _ => ?_) ?_ balanced.sendings balanced.intact
    · simp only [Machine.modify, update_self, Task.pendings, sig]
      simp
    · simp only [Machine.modify, update_self]
      refine ⟨fun _ other member => ?_, nofun⟩
      obtain rfl := some.inj (mem_def.mp member)
      exact ⟨rfl, rfl⟩
  · rename_i late
    have phase : wait.phase = .woken := by
      cases phase : wait.phase with
      | pended => exact absurd ⟨phase, free⟩ goes
      | woken => rfl
      | timedOut => exact absurd phase late
    obtain ⟨real, low, inSet, has⟩ := woken phase
    refine @move _ _ task [.returned task sigCB.sigInfo wait.set] balanced
      (fun other different => update_of_ne different _ _) rfl (by simp [Event.task])
      (fun one realOne lowOne => ?_) ?_ balanced.sendings balanced.intact
    · simp only [note, Machine.modify, update_self, Task.pendings, sig]
      rw [pendings_taken has (has_and_not_iff realOne lowOne real)]
      simp only [count_singleton, countP_singleton, Event.closes]
      by_cases same : sigCB.sigInfo = one
      · simp [same, same ▸ inSet]
      · simp [same]
    · simp only [note, Machine.modify, update_self]
      refine ⟨fun _ other member => ?_, nofun⟩
      obtain rfl := some.inj (mem_def.mp member)
      exact ⟨rfl, rfl⟩

theorem expire {wait : Wait}
    (waiting : (machine.tcb task).wait = some wait) : (machine.modify task fun taskCB =>
      { taskCB with wait := some { wait with phase := .timedOut } }).Balanced := by
  refine @move _ _ task [] balanced (fun other different => update_of_ne different _ _)
    rfl (by simp) (fun one _ _ => ?_) ?_ balanced.sendings balanced.intact
  · simp only [Machine.modify, update_self, Task.pendings]
    simp
  · simp only [Machine.modify, update_self]
    refine ⟨nofun, fun other member => ?_⟩
    obtain rfl := some.inj (mem_def.mp member)
    obtain ⟨free, sigCB, sig, waits, flag, -⟩ := (balanced.good task).waiting wait waiting
    exact ⟨free, sigCB, sig, waits, flag, nofun⟩

theorem signalHandle {sigCB : OsSigCB} {loop : Loop}
    {rest : List Loop} (idle : (machine.tcb task).wait = none)
    (sig : (machine.tcb task).sig = some sigCB) :
    (machine.signalHandle task sigCB loop rest).Balanced := by
  rw [Machine.signalHandle]
  split
  · rename_i found
    obtain ⟨has, real, low⟩ := has_highest found
    generalize highest (sigCB.sigPendFlag &&& sigCB.sigSetFlag) = sigNo at has real low ⊢
    have pending : Has sigCB.sigPendFlag sigNo := by
      rw [Has, BitVec.getLsbD_and, Bool.and_eq_true] at has
      exact has.1
    have taken : (sigCB.takeSignal sigNo).sigPendFlag =
          sigCB.sigPendFlag &&& ~~~Signal.losSignalMask sigNo ∧
        (sigCB.takeSignal sigNo).sigWaitFlag = sigCB.sigWaitFlag ∧
        (sigCB.takeSignal sigNo).waits = sigCB.waits := by
      rw [OsSigCB.takeSignal, OsSigCB.deleteSigInfoFromList]
      split
      · exact ⟨rfl, rfl, rfl⟩
      · exact ⟨rfl, rfl, rfl⟩
    obtain ⟨pend, flag, waits⟩ := taken
    refine @move _ _ task [.delivered task sigNo _] balanced
      (fun other different => update_of_ne different _ _) rfl (by simp [Event.task])
      (fun one realOne lowOne => ?_) ?_ balanced.sendings balanced.intact
    · simp only [note, Machine.modify, update_self, Task.pendings, sig, pend]
      rw [pendings_taken pending (has_and_not_iff realOne lowOne real)]
      simp only [count_singleton, countP_singleton, Event.closes]
      by_cases same : sigNo = one
      · simp [same]
      · simp [same]
    · simp only [note, Machine.modify, update_self]
      refine ⟨fun _ other member => ?_, fun wait waiting => ?_⟩
      · obtain rfl := some.inj (mem_def.mp member)
        obtain ⟨off, zero⟩ := (balanced.good task).awake idle sigCB sig
        exact ⟨waits.trans off, flag.trans zero⟩
      · exact absurd (idle.symm.trans waiting) nofun
  · exact balanced.modify rfl rfl

end

theorem step (taskLimit : Nat) {action : Action} (balanced : machine.Balanced)
    (meets : InTime machine action) (result : machine.step taskLimit action = some next) :
    next.Balanced := by
  cases action with
  | signalSet task sigNo action memory =>
    exact some.inj result ▸ balanced.signalSet sigNo action memory
  | signalMask task how set memory =>
    exact some.inj result ▸ balanced.signalMask how set memory
  | signalSend taskID sigNo memory node =>
    exact some.inj result ▸ balanced.losSignalSend taskLimit sigNo memory node
  | send index sender =>
    simp only [Machine.step] at result
    split at result
    · exact absurd result nofun
    rename_i sending here
    have left : Machine.Balanced { machine with sendings := machine.sendings.eraseIdx index } :=
      { balanced with
        sendings := fun one member => balanced.sendings one (mem_of_mem_eraseIdx member) }
    exact left.signalSend (balanced.sendings sending (mem_of_getElem? here))
      (meets sending here) result
  | signalWait task set timeout memory interrupt locked =>
    simp only [Machine.step, ite_none_left_eq_some] at result
    obtain ⟨allowed, same⟩ := result
    rw [not_and, not_not] at allowed
    exact some.inj same ▸ balanced.signalWait allowed meets
  | resume task =>
    simp only [Machine.step] at result
    split at result
    · rename_i sig waiting
      split at result
      · exact absurd result nofun
      · rename_i goes
        exact some.inj result ▸ balanced.signalResumed sig waiting goes
    · exact absurd result nofun
  | expire task =>
    simp only [Machine.step] at result
    split at result
    · rename_i waiting
      split at result
      · exact some.inj result ▸ balanced.expire waiting
      · exact absurd result nofun
    · exact absurd result nofun
  | handle task =>
    simp only [Machine.step] at result
    split at result
    · rename_i idle sig loops
      exact some.inj result ▸ balanced.signalHandle idle sig
    · exact absurd result nofun

end Machine.Balanced

/-! ### Runs -/

/-- No task has signals, and nothing has happened. -/
def Initial (machine : Machine) : Prop :=
  (∀ task, machine.tcb task = {}) ∧ machine.sendings = [] ∧ machine.log = [] ∧
    machine.failed = false

theorem Initial.balanced {machine : Machine} (initial : Initial machine) : machine.Balanced := by
  obtain ⟨fresh, idle, log, intact⟩ := initial
  refine ⟨fun task sigNo _ _ => ?_, fun task => ?_, by simp [idle], intact⟩
  · rw [log, fresh task]
    rfl
  · rw [fresh task]
    exact ⟨nofun, nofun⟩

/-- No signal is lost in any run within the conditions. -/
theorem signals_in_order (taskLimit : Nat) {machine : Machine}
    (reached : Reachable (Machine.step taskLimit) InTime Initial machine) : machine.InOrder := by
  have balanced : machine.Balanced := reached.invariant (fun _ initial => initial.balanced)
      fun _ _ _ _ balanced meets result => balanced.step taskLimit meets result
  refine ⟨fun task sigNo valid => ?_, balanced.intact⟩
  rw [osSignalValid, decide_eq_true_iff, losSignalSupportMax] at valid
  exact balanced.accounts task sigNo (by omega) (by omega)

def signalMachine : Machine := ⟨fun _ => {}, [], [], false⟩

theorem initial_signalMachine : Initial signalMachine := ⟨fun _ => rfl, rfl, rfl, rfl⟩

/-- Task 1 installs two handlers, waits for a signal and is sent it, is sent the other one, which
its handler gets, and blocks, waits for, and is sent the first one again. -/
def signalRun : List Action :=
  [.signalSet 1 3 (.handler 7) true, .signalSet 1 5 .sigDfl true,
    .signalWait 1 (some 4) 10 true false false, .signalSend 1 3 true true, .send 0 .other,
    .resume 1, .signalSend 1 5 true true, .send 0 .other, .handle 1, .handle 1,
    .signalWait 1 (some 4) 10 true false false, .expire 1, .resume 1,
    .signalMask 1 .sigBlock (some 16) true, .signalSend 1 3 true true, .send 0 .interrupt,
    .signalWait 1 (some 20) 0 true false false]

theorem signals_in_order_sample : ∃ machine,
    execute (Machine.step 16) (fun machine action => decide (InTime machine action)) signalMachine
      signalRun = some machine ∧ machine.InOrder := by
  have runs : (execute (Machine.step 16) (fun machine action => decide (InTime machine action))
      signalMachine signalRun).isSome = true := by decide
  obtain ⟨machine, result⟩ := Option.isSome_iff_exists.mp runs
  exact ⟨machine, result, signals_in_order 16
    (.of_execute (fun _ _ => of_decide_eq_true) _ (.start initial_signalMachine) result)⟩

/-- Two signals of the set of a wait are pending when it is called. -/
def twoPendingRun : List Action :=
  [.signalSet 1 3 (.handler 7) true, .signalSet 1 5 .sigDfl true, .signalSend 1 3 true true,
    .send 0 .interrupt, .signalSend 1 5 true true, .send 0 .interrupt,
    .signalWait 1 (some 20) 10 true false false]

/-- The wait returns the higher signal and clears both. -/
theorem signals_out_of_order : ¬∀ machine,
    Reachable (Machine.step 16) (fun _ _ => True) Initial machine → machine.InOrder := by
  have ends : (execute (Machine.step 16) (fun _ _ => true) signalMachine twoPendingRun).map
      (fun machine => (machine.log, (machine.tcb 1).pendings 3)) =
        some ([.returned 1 5 20, .accepted 1 5, .accepted 1 3], 0) := by decide
  obtain ⟨machine, result, same⟩ := Option.map_eq_some_iff.mp ends
  obtain ⟨log, cleared⟩ := Prod.mk.inj same
  intro all
  have accounts := (all machine (.of_execute (fun _ _ _ => trivial) _
    (.start initial_signalMachine) result)).accounts 1 3 rfl
  rw [log, cleared] at accounts
  exact absurd accounts (by decide)

end TowerSafe.Signal
