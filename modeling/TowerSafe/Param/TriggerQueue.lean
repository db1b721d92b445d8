/-
This file embeds the queue of triggers that wait for their execution, with what changes it: checks,
`DoTriggerExec`, `DoJobExecNow`, immediate executions, batches of queue work, and the deletion of
triggers. The commands of a trigger may do all of this again while it is executed. It keeps the
flags of the triggers in step with the queue, as long as the queue has room, an execution does not
end while its trigger is queued, and a queued trigger is deleted while the indexes are small.

Which triggers a check finds is left open, and so are the commands.
-/

import Mathlib.Data.List.Basic
import Mathlib.Logic.Function.Basic
import TowerSafe.Library.Ring
import TowerSafe.Library.Transition

namespace TowerSafe.TriggerQueue

open Library List
open Function (update update_self update_of_ne)
open Option (any_some ite_none_right_eq_some map_eq_some_iff map_some some_inj some_ne_none)

/-! ### The work space -/

/-- The address of a trigger. -/
abbrev TriggerPtr := Nat

/-- `TriggerNode`: its flags, and whether it is a job or somebody who waits for a parameter. -/
structure TriggerNode where
  inQueue : Bool
  once : Bool
  subTrigger : Bool
  isJob : Bool
  deriving DecidableEq

def triggerExecuteQueue : Nat := 64

def maxTriggerCountRunOnce : Nat := 20

/-- Who executes a trigger: `StartTriggerExecute_` for the queue work or for `DoJobExecNow`, or
`ExecuteTriggerImmediately`. -/
inductive Executor where
  | work
  | now
  | immediately
  deriving DecidableEq

/-- A trigger that is executed; `checking` is the check after its commands. -/
structure Frame where
  trigger : TriggerPtr
  executor : Executor
  checking : Bool
  deriving DecidableEq

/-- The triggers, the queue, the executions, innermost first, the count of a batch of queue work,
and the queued triggers that were overwritten. -/
structure WorkSpace where
  triggers : TriggerPtr → Option TriggerNode
  executeQueue : Nat → Option TriggerPtr
  startIndex : Nat
  endIndex : Nat
  frames : List Frame
  executeCount : Option Nat
  overwritten : List TriggerPtr

namespace WorkSpace

variable (workSpace : WorkSpace)

/-- What stands between the two indexes of the queue. -/
def queued : List (Option TriggerPtr) :=
  Ring.contents triggerExecuteQueue workSpace.executeQueue workSpace.startIndex
    (workSpace.endIndex - workSpace.startIndex)

def setTrigger (trigger : TriggerPtr) (node : Option TriggerNode) : WorkSpace :=
  { workSpace with triggers := update workSpace.triggers trigger node }

/-- Write a slot of the queue. -/
def setSlot (index : Nat) (entry : Option TriggerPtr) : WorkSpace :=
  { workSpace with executeQueue := update workSpace.executeQueue index entry }

/-- `TRIGGER_SET_FLAG` or `TRIGGER_CLEAR_FLAG` of `TRIGGER_FLAGS_QUEUE`. -/
def setFlag (trigger : TriggerPtr) (flag : Bool) : WorkSpace :=
  workSpace.setTrigger trigger
    ((workSpace.triggers trigger).map fun node => { node with inQueue := flag })

/-- `ExecuteQueuePush`. The index is a `uint32_t`. -/
def executeQueuePush (trigger : TriggerPtr) : WorkSpace :=
  let index := workSpace.endIndex % triggerExecuteQueue
  { workSpace with
    executeQueue := update workSpace.executeQueue index (some trigger)
    endIndex := (workSpace.endIndex + 1) % 2 ^ 32
    overwritten := (workSpace.executeQueue index).toList ++ workSpace.overwritten }

/-- The loop of `ExecuteQueuePop`; the count bounds the indexes that are left. -/
def popLoop : Nat → WorkSpace → Option TriggerPtr × WorkSpace
  | 0, workSpace => (none, workSpace)
  | count + 1, workSpace =>
      if workSpace.endIndex ≤ workSpace.startIndex then (none, workSpace)
      else
        let currIndex := workSpace.startIndex % triggerExecuteQueue
        let next := { workSpace with
          executeQueue := update workSpace.executeQueue currIndex none
          startIndex := workSpace.startIndex + 1 }
        match workSpace.executeQueue currIndex with
        | none => popLoop count next
        | some trigger => (some trigger, next)

def executeQueuePop : Option TriggerPtr × WorkSpace :=
  popLoop (workSpace.endIndex - workSpace.startIndex) workSpace

/-- The index at which the loop of `DelJobTrigger_` finds a trigger. It is not reduced; what is read
past the array is no trigger. -/
def findQueued (trigger : TriggerPtr) : Option Nat :=
  ((List.range (workSpace.endIndex - workSpace.startIndex)).map (workSpace.startIndex + ·)).find?
    fun i => decide (i < triggerExecuteQueue) &&
      decide (workSpace.executeQueue i = some trigger)

/-- `FreeTrigger`: `DelJobTrigger_` or `DelWatchTrigger_`. -/
def freeTrigger (trigger : TriggerPtr) (node : TriggerNode) : WorkSpace :=
  let freed := workSpace.setTrigger trigger none
  if node.isJob && node.inQueue then
    match workSpace.findQueued trigger with
    | none => freed
    | some i => freed.setSlot i none
  else freed

/-- `DoTriggerCheckResult` and the end of `DoTriggerExec`: a trigger that is not queued is. -/
def queueTrigger (trigger : TriggerPtr) (node : TriggerNode) : WorkSpace :=
  if node.inQueue then workSpace
  else (workSpace.setFlag trigger true).executeQueuePush trigger

def execute (trigger : TriggerPtr) (executor : Executor) : WorkSpace :=
  { workSpace with frames := ⟨trigger, executor, false⟩ :: workSpace.frames }

/-- The next turn of `ExecuteQueueWork`. -/
def popNext (executeCount : Nat) : WorkSpace :=
  let popped := workSpace.executeQueuePop
  match popped.1 with
  | none => { popped.2 with executeCount := none }
  | some trigger => { popped.2.execute trigger .work with executeCount := some executeCount }

/-- An execution is over: a batch goes on unless it has come to its limit. -/
def endFrame (frame : Frame) (rest : List Frame) (node : TriggerNode) : WorkSpace :=
  let ended :=
    { workSpace with
      frames := rest
      executeCount :=
        if frame.executor = .work then
          workSpace.executeCount.bind fun count =>
            if count + 1 > maxTriggerCountRunOnce then none else some (count + 1)
        else workSpace.executeCount }
  if node.once then ended.freeTrigger frame.trigger node else ended

end WorkSpace

/-! ### Runs -/

inductive Action where
  /-- A check finds a trigger: `DoTriggerCheckResult`. -/
  | checkResult (trigger : TriggerPtr)
  /-- `DoTriggerExec`, with the trigger of the name. -/
  | doTriggerExec (trigger : Option TriggerPtr)
  /-- `DoJobExecNow` up to the commands, with the trigger of the name. -/
  | doJobExecNow (trigger : Option TriggerPtr)
  /-- `ExecuteTriggerImmediately` up to the commands. -/
  | executeImmediately (trigger : TriggerPtr)
  /-- `ExecuteQueueWork` up to the commands of the first trigger. -/
  | queueWork
  /-- `ExecuteQueueWork` up to the commands of the next trigger. -/
  | popNext
  /-- The commands of the innermost execution are done. -/
  | finish
  /-- The check after the commands is done. -/
  | finishCheck
  /-- `FreeTrigger`. -/
  | freeTrigger (trigger : TriggerPtr)
  /-- A trigger is added, at an address that is not in use. -/
  | addTrigger (trigger : TriggerPtr) (once subTrigger isJob : Bool)
  deriving DecidableEq

namespace WorkSpace

variable (workSpace : WorkSpace)

/-- What an action does; none where the code follows a pointer to a trigger that was freed. -/
def act : Action → Option WorkSpace
  | .checkResult trigger =>
      match workSpace.triggers trigger with
      | none => none
      | some node => if node.isJob then some (workSpace.queueTrigger trigger node) else none
  | .doTriggerExec none => some workSpace
  | .doTriggerExec (some trigger) =>
      match workSpace.triggers trigger with
      | none => none
      | some node => if node.isJob then some (workSpace.queueTrigger trigger node) else none
  | .doJobExecNow none => some workSpace
  | .doJobExecNow (some trigger) =>
      match workSpace.triggers trigger with
      | none => none
      | some node => if node.isJob then some (workSpace.execute trigger .now) else none
  | .executeImmediately trigger =>
      match workSpace.triggers trigger with
      | none => none
      | some _ => some (workSpace.execute trigger .immediately)
  | .queueWork =>
      if workSpace.frames = [] ∧ workSpace.executeCount = none then some (workSpace.popNext 0)
      else none
  | .popNext =>
      if workSpace.frames = [] then workSpace.executeCount.map workSpace.popNext else none
  | .finish =>
      match workSpace.frames with
      | [] => none
      | frame :: rest =>
          if frame.checking then none
          else
            match workSpace.triggers frame.trigger with
            | none => none
            | some node =>
                let cleared := workSpace.setFlag frame.trigger false
                if node.subTrigger ∧ frame.executor ≠ .immediately then
                  some { cleared with frames := { frame with checking := true } :: rest }
                else some (cleared.endFrame frame rest { node with inQueue := false })
  | .finishCheck =>
      match workSpace.frames with
      | [] => none
      | frame :: rest =>
          if frame.checking then
            (workSpace.triggers frame.trigger).map fun node => workSpace.endFrame frame rest node
          else none
  | .freeTrigger trigger =>
      (workSpace.triggers trigger).map fun node => workSpace.freeTrigger trigger node
  | .addTrigger trigger once subTrigger isJob =>
      match workSpace.triggers trigger with
      | none => some (workSpace.setTrigger trigger (some ⟨false, once, subTrigger, isJob⟩))
      | some _ => none

/-- A step. Nothing else comes between two turns of a batch. -/
def step (action : Action) : Option WorkSpace :=
  if workSpace.frames.isEmpty && workSpace.executeCount.isSome && action != .popNext then none
  else workSpace.act action

/-- A trigger that the queue work has taken out and executes; its flag is still set. -/
def Executed (trigger : TriggerPtr) : Prop :=
  ∃ frame ∈ workSpace.frames, frame.trigger = trigger ∧ frame.executor = .work ∧
    frame.checking = false

end WorkSpace

/-- The flags and the queue are in step. A trigger whose flag is set stands in the queue once,
unless the queue work has taken it out and executes it; what stands in the queue is a trigger with
its flag set; and no queued trigger was overwritten. -/
structure WorkSpace.InStep (workSpace : WorkSpace) : Prop where
  once : ∀ trigger node, workSpace.triggers trigger = some node → node.inQueue = true →
    workSpace.queued.count (some trigger) = 1 ∨ workSpace.Executed trigger
  live : ∀ trigger, some trigger ∈ workSpace.queued →
    workSpace.queued.count (some trigger) = 1 ∧
      ∃ node, workSpace.triggers trigger = some node ∧ node.inQueue = true
  kept : workSpace.overwritten = []

/-- Whether the queue has room and its index does not come round. -/
def WorkSpace.hasRoom (workSpace : WorkSpace) : Bool :=
  decide (workSpace.endIndex - workSpace.startIndex < triggerExecuteQueue) &&
    decide (workSpace.endIndex + 1 < 2 ^ 32)

/-- Whether a trigger is not queued, or is found by the loop that takes it out. -/
def WorkSpace.deletable (workSpace : WorkSpace) (trigger : TriggerPtr) : Bool :=
  !workSpace.queued.contains (some trigger) || (workSpace.findQueued trigger).isSome

/-- A trigger is queued when there is room, its execution does not end while it is queued, and it is
deleted while it can be found. -/
def careful (workSpace : WorkSpace) : Action → Bool
  | .checkResult trigger | .doTriggerExec (some trigger) =>
      match workSpace.triggers trigger with
      | none => true
      | some node => node.inQueue || workSpace.hasRoom
  | .finish =>
      match workSpace.frames with
      | [] => true
      | frame :: _ => !workSpace.queued.contains (some frame.trigger)
  | .finishCheck =>
      match workSpace.frames with
      | [] => true
      | frame :: _ => workSpace.deletable frame.trigger
  | .freeTrigger trigger => workSpace.deletable trigger
  | _ => true

/-! ### The ring -/

namespace WorkSpace

/-- The indexes are in order, and nothing is left in the slots that are free. -/
structure Ringed (workSpace : WorkSpace) : Prop where
  ordered : workSpace.startIndex ≤ workSpace.endIndex
  bounded : workSpace.endIndex ≤ workSpace.startIndex + triggerExecuteQueue
  small : workSpace.endIndex < 2 ^ 32
  free : ∀ index, workSpace.endIndex ≤ index →
    index < workSpace.startIndex + triggerExecuteQueue →
      workSpace.executeQueue (index % triggerExecuteQueue) = none
  kept : workSpace.overwritten = []

variable {workSpace next : WorkSpace} {trigger : TriggerPtr} {node : TriggerNode}

section

variable (ringed : workSpace.Ringed)
include ringed

theorem Ringed.count_le :
    workSpace.endIndex - workSpace.startIndex ≤ triggerExecuteQueue :=
  Nat.sub_le_iff_le_add'.mpr ringed.bounded

theorem Ringed.endIndex_eq :
    workSpace.startIndex + (workSpace.endIndex - workSpace.startIndex) = workSpace.endIndex :=
  Nat.add_sub_cancel' ringed.ordered

theorem Ringed.of_eq
    (queue : next.executeQueue = workSpace.executeQueue)
    (start : next.startIndex = workSpace.startIndex) (end_ : next.endIndex = workSpace.endIndex)
    (kept : next.overwritten = workSpace.overwritten) :
    next.Ringed ∧ next.queued = workSpace.queued := by
  refine ⟨⟨?_, ?_, ?_, ?_, kept.trans ringed.kept⟩, ?_⟩
  · rw [start, end_]
    exact ringed.ordered
  · rw [start, end_]
    exact ringed.bounded
  · rw [end_]
    exact ringed.small
  · rw [start, end_, queue]
    exact ringed.free
  · rw [queued, queued, queue, start, end_]

theorem Ringed.push (room : workSpace.hasRoom = true) :
    (workSpace.executeQueuePush trigger).Ringed ∧
      (workSpace.executeQueuePush trigger).queued = workSpace.queued ++ [some trigger] := by
  rw [hasRoom, Bool.and_eq_true_iff, decide_eq_true_iff, decide_eq_true_iff] at room
  obtain ⟨fits, small⟩ := room
  have ordered := ringed.ordered
  have atEnd : workSpace.executeQueue (workSpace.endIndex % triggerExecuteQueue) = none :=
    ringed.free _ (Nat.le_refl _) (by omega)
  have index : (workSpace.endIndex + 1) % 2 ^ 32 = workSpace.endIndex + 1 := Nat.mod_eq_of_lt small
  have pushed : workSpace.executeQueuePush trigger = { workSpace with
        executeQueue := update workSpace.executeQueue
          (workSpace.endIndex % triggerExecuteQueue) (some trigger)
        endIndex := workSpace.endIndex + 1 } := by
    rw [executeQueuePush, index, atEnd]
    rfl
  rw [pushed]
  refine ⟨⟨Nat.le_succ_of_le ordered, ?_, small, ?_, ringed.kept⟩, ?_⟩
  · dsimp only
    omega
  · intro one after below
    dsimp only at after below ⊢
    have apart : one % triggerExecuteQueue ≠ workSpace.endIndex % triggerExecuteQueue := by
      unfold triggerExecuteQueue at below ⊢
      omega
    rw [update_of_ne apart]
    exact ringed.free one (Nat.le_of_succ_le after) below
  · have count : workSpace.endIndex + 1 - workSpace.startIndex =
        workSpace.endIndex - workSpace.startIndex + 1 := Nat.succ_sub ordered
    have pushed := @Ring.contents_push _ triggerExecuteQueue workSpace.startIndex _
      workSpace.executeQueue fits (some trigger)
    rw [ringed.endIndex_eq] at pushed
    rw [queued, count]
    exact pushed

theorem Ringed.pop (more : workSpace.startIndex < workSpace.endIndex) :
    let index := workSpace.startIndex % triggerExecuteQueue
    let next := { workSpace with
      executeQueue := update workSpace.executeQueue index none
      startIndex := workSpace.startIndex + 1 }
    next.Ringed ∧ workSpace.queued = workSpace.executeQueue index :: next.queued := by
  have bounded := ringed.bounded
  obtain ⟨count, length⟩ : ∃ count, workSpace.endIndex - workSpace.startIndex = count + 1 :=
    ⟨workSpace.endIndex - workSpace.startIndex - 1, by omega⟩
  have rest : workSpace.endIndex - (workSpace.startIndex + 1) = count := by omega
  refine ⟨⟨more, ?_, ringed.small, ?_, ringed.kept⟩, ?_⟩
  · dsimp only
    omega
  · intro one after below
    dsimp only at after below ⊢
    by_cases last : one = workSpace.startIndex + triggerExecuteQueue
    · rw [last, Nat.add_mod_right, update_self]
    have apart : one % triggerExecuteQueue ≠ workSpace.startIndex % triggerExecuteQueue := by
      unfold triggerExecuteQueue at below last ⊢
      omega
    rw [update_of_ne apart]
    exact ringed.free one after (by omega)
  · dsimp only [queued]
    rw [length, rest, Ring.contents_pop (by omega), Ring.contents_cons]

end

/-- What `ExecuteQueuePop` takes is the first trigger in the queue, and it drops what was deleted
before it. -/
structure Popped (workSpace : WorkSpace) (popped : Option TriggerPtr × WorkSpace) : Prop where
  ringed : popped.2.Ringed
  triggers : popped.2.triggers = workSpace.triggers
  frames : popped.2.frames = workSpace.frames
  dropped : ∃ count, workSpace.queued =
    List.replicate count none ++ popped.1.toList.map some ++ popped.2.queued

theorem Popped.of_nothing (ringed : workSpace.Ringed) : Popped workSpace (none, workSpace) :=
  ⟨ringed, rfl, rfl, 0, rfl⟩

theorem Ringed.popLoop (ringed : workSpace.Ringed) (count : Nat) :
    Popped workSpace (popLoop count workSpace) := by
  induction count generalizing workSpace with
  | zero => exact .of_nothing ringed
  | succ count hypothesis =>
    rw [WorkSpace.popLoop]
    split
    · exact .of_nothing ringed
    next more =>
    obtain ⟨after, first⟩ := ringed.pop (Nat.lt_of_not_le more)
    dsimp only at after first ⊢
    cases entry : workSpace.executeQueue (workSpace.startIndex % triggerExecuteQueue) with
    | none =>
      rw [entry] at first
      obtain ⟨later, triggers, frames, count, dropped⟩ := hypothesis after
      refine ⟨later, triggers, frames, count + 1, ?_⟩
      rw [first, dropped, replicate_succ, cons_append, cons_append]
    | some trigger =>
      rw [entry] at first
      exact ⟨after, rfl, rfl, 0, first⟩

theorem Popped.count {popped : Option TriggerPtr × WorkSpace} (taken : Popped workSpace popped)
    (trigger : TriggerPtr) : workSpace.queued.count (some trigger) =
      (if popped.1 = some trigger then 1 else 0) + popped.2.queued.count (some trigger) := by
  obtain ⟨count, dropped⟩ := taken.dropped
  rw [dropped, count_append, count_append, count_replicate]
  cases popped.1 with
  | none => simp
  | some first =>
    by_cases same : first = trigger
    · simp [same]
    · simp [same]

theorem findQueued_some {index : Nat} (found : workSpace.findQueued trigger = some index) :
    workSpace.startIndex ≤ index ∧ index < workSpace.endIndex ∧ index < triggerExecuteQueue ∧
      workSpace.executeQueue index = some trigger := by
  have member := mem_of_find?_eq_some found
  have holds := List.find?_some found
  rw [Bool.and_eq_true_iff, decide_eq_true_iff, decide_eq_true_iff] at holds
  obtain ⟨place, below, rfl⟩ := mem_map.mp member
  rw [mem_range] at below
  exact ⟨Nat.le_add_right _ _, by omega, holds⟩

theorem mem_queued_of_findQueued {index : Nat}
    (found : workSpace.findQueued trigger = some index) : some trigger ∈ workSpace.queued := by
  obtain ⟨after, before, inside, entry⟩ := findQueued_some found
  have place : index - workSpace.startIndex < workSpace.endIndex - workSpace.startIndex := by
    omega
  refine mem_of_getElem? (i := index - workSpace.startIndex) ?_
  rw [queued, Ring.getElem?_contents, if_pos place, Nat.add_sub_cancel' after,
    Nat.mod_eq_of_lt inside, entry]

theorem Ringed.clear (ringed : workSpace.Ringed) {index : Nat}
    (found : workSpace.findQueued trigger = some index) : (workSpace.setSlot index none).Ringed ∧
      ∀ other, (workSpace.setSlot index none).queued.count (some other) =
      workSpace.queued.count (some other) - if other = trigger then 1 else 0 := by
  obtain ⟨after, before, inside, entry⟩ := findQueued_some found
  have slot : (workSpace.startIndex + (index - workSpace.startIndex)) % triggerExecuteQueue =
      index := by
    rw [Nat.add_sub_cancel' after, Nat.mod_eq_of_lt inside]
  have place : index - workSpace.startIndex < workSpace.endIndex - workSpace.startIndex := by
    omega
  have cleared := @Ring.contents_update _ triggerExecuteQueue workSpace.startIndex _ _
    workSpace.executeQueue ringed.count_le place none
  rw [slot] at cleared
  have atPlace : workSpace.queued[index - workSpace.startIndex]? = some (some trigger) := by
    rw [queued, Ring.getElem?_contents, if_pos place, slot, entry]
  refine ⟨⟨ringed.ordered, ringed.bounded, ringed.small, ?_, ringed.kept⟩, fun other => ?_⟩
  · intro one later below
    by_cases same : one % triggerExecuteQueue = index
    · rw [same]
      exact update_self ..
    · exact (update_of_ne same ..).trans (ringed.free one later below)
  · have length : index - workSpace.startIndex < workSpace.queued.length := by
      rw [queued, Ring.length_contents]
      exact place
    have value : workSpace.queued[index - workSpace.startIndex] = some trigger := by
      rw [List.getElem?_eq_getElem length] at atPlace
      exact some_inj.mp atPlace
    rw [queued, setSlot, cleared, ← queued, List.count_set length, value]
    by_cases same : other = trigger
    · simp [same]
    · simp [same, Ne.symm same]

/-! ### Flags and the queue -/

def inQueueCount (workSpace : WorkSpace) (trigger : TriggerPtr) : Nat :=
  workSpace.queued.count (some trigger)

/-- The flags are in step with the ring; what is queued is a job. -/
structure Linked (workSpace : WorkSpace) : Prop where
  ringed : workSpace.Ringed
  once : ∀ trigger node, workSpace.triggers trigger = some node → node.inQueue = true →
    workSpace.inQueueCount trigger = 1 ∨ workSpace.Executed trigger
  live : ∀ trigger, 0 < workSpace.inQueueCount trigger →
    workSpace.inQueueCount trigger = 1 ∧
      ∃ node, workSpace.triggers trigger = some node ∧ node.inQueue = true ∧ node.isJob = true

/-- What is known of one trigger. -/
structure LinkedAt (workSpace : WorkSpace) (trigger : TriggerPtr) : Prop where
  once : ∀ node, workSpace.triggers trigger = some node → node.inQueue = true →
    workSpace.inQueueCount trigger = 1 ∨ workSpace.Executed trigger
  live : 0 < workSpace.inQueueCount trigger →
    workSpace.inQueueCount trigger = 1 ∧
      ∃ node, workSpace.triggers trigger = some node ∧ node.inQueue = true ∧ node.isJob = true

section

variable (linked : workSpace.Linked)
include linked

theorem Linked.inStep : workSpace.InStep := by
  refine ⟨linked.once, fun trigger member => ?_, linked.ringed.kept⟩
  obtain ⟨once, node, found, flag, -⟩ := linked.live trigger (count_pos_iff.mpr member)
  exact ⟨once, node, found, flag⟩

theorem Linked.of_change (ringed : next.Ringed) (trigger : TriggerPtr)
    (count : ∀ other, other ≠ trigger → next.inQueueCount other = workSpace.inQueueCount other)
    (triggers : ∀ other, other ≠ trigger → next.triggers other = workSpace.triggers other)
    (executed : ∀ other, other ≠ trigger → workSpace.Executed other → next.Executed other)
    (self : next.LinkedAt trigger) : next.Linked := by
  refine ⟨ringed, fun other node found flag => ?_, fun other queued => ?_⟩
  · by_cases same : other = trigger
    · subst same
      exact self.once node found flag
    · rw [count other same]
      rw [triggers other same] at found
      exact (linked.once other node found flag).imp_right (executed other same)
  · by_cases same : other = trigger
    · subst same
      exact self.live queued
    · rw [count other same] at queued ⊢
      rw [triggers other same]
      exact linked.live other queued

theorem Linked.of_same (ringed : next.Ringed)
    (count : ∀ other, next.inQueueCount other = workSpace.inQueueCount other)
    (triggers : next.triggers = workSpace.triggers)
    (executed : ∀ other, workSpace.Executed other → next.Executed other) : next.Linked := by
  refine ⟨ringed, fun other node found flag => ?_, fun other queued => ?_⟩
  · rw [count other]
    rw [triggers] at found
    exact (linked.once other node found flag).imp_right (executed other)
  · rw [count other] at queued ⊢
    rw [triggers]
    exact linked.live other queued

theorem Linked.count_eq_zero
    (idle : ∀ node, workSpace.triggers trigger = some node → node.inQueue = false) :
    workSpace.inQueueCount trigger = 0 := by
  by_contra queued
  obtain ⟨-, node, found, flag, -⟩ := linked.live trigger (Nat.pos_of_ne_zero queued)
  exact absurd (flag.symm.trans (idle node found)) (by decide)

theorem Linked.queueTrigger
    (found : workSpace.triggers trigger = some node) (isJob : node.isJob = true)
    (room : (node.inQueue || workSpace.hasRoom) = true) :
    (workSpace.queueTrigger trigger node).Linked := by
  rw [WorkSpace.queueTrigger]
  cases flag : node.inQueue with
  | true => exact linked
  | false =>
    rw [flag, Bool.false_or] at room
    rw [if_neg Bool.false_ne_true]
    have before : workSpace.inQueueCount trigger = 0 :=
      linked.count_eq_zero fun other same => by rw [← some_inj.mp (found.symm.trans same), flag]
    obtain ⟨flagged, sameQueue⟩ := @Ringed.of_eq workSpace (workSpace.setFlag trigger true)
      linked.ringed rfl rfl rfl rfl
    obtain ⟨ringed, queued⟩ := @Ringed.push _ trigger flagged room
    have count (other : TriggerPtr) :
        ((workSpace.setFlag trigger true).executeQueuePush trigger).inQueueCount other =
          workSpace.inQueueCount other + if other = trigger then 1 else 0 := by
      rw [inQueueCount, queued, sameQueue, count_append, ← inQueueCount]
      by_cases same : other = trigger
      · simp [same]
      · simp [same, Ne.symm same]
    refine linked.of_change ringed trigger (fun other apart => ?_) (fun other apart => ?_)
      (fun _ _ executed => executed) ⟨fun _ _ _ => .inl ?_, fun _ => ⟨?_, ?_⟩⟩
    · rw [count, if_neg apart, Nat.add_zero]
    · exact update_of_ne apart ..
    · rw [count, if_pos rfl, before]
    · rw [count, if_pos rfl, before]
    · refine ⟨{ node with inQueue := true }, ?_, rfl, isJob⟩
      refine (update_self ..).trans ?_
      rw [found, map_some]

theorem Linked.freeTrigger (found : workSpace.triggers trigger = some node)
    (deletable : workSpace.deletable trigger = true) :
    (workSpace.freeTrigger trigger node).Linked := by
  have gone : (workSpace.setTrigger trigger none).triggers trigger = none := update_self ..
  have others (other : TriggerPtr) (apart : other ≠ trigger) :
      (workSpace.setTrigger trigger none).triggers other = workSpace.triggers other :=
    update_of_ne apart ..
  obtain ⟨freed, sameQueue⟩ := @Ringed.of_eq workSpace (workSpace.setTrigger trigger none)
    linked.ringed rfl rfl rfl rfl
  have plain (absent : workSpace.inQueueCount trigger = 0) :
      (workSpace.setTrigger trigger none).Linked := by
    refine linked.of_change freed trigger (fun other _ => ?_) others
      (fun _ _ executed => executed) ⟨fun _ some_ => ?_, fun queued => ?_⟩
    · rw [inQueueCount, sameQueue, inQueueCount]
    · exact absurd (gone.symm.trans some_) (some_ne_none _).symm
    · rw [inQueueCount, sameQueue, ← inQueueCount, absent] at queued
      exact absurd queued (Nat.lt_irrefl 0)
  rw [WorkSpace.freeTrigger]
  cases member : workSpace.queued.contains (some trigger) with
  | false =>
    have absent : workSpace.inQueueCount trigger = 0 := by
      rw [inQueueCount, List.count_eq_zero]
      exact fun inside => absurd ((contains_iff_mem.mpr inside).symm.trans member) (by decide)
    have missed : workSpace.findQueued trigger = none := by
      cases found : workSpace.findQueued trigger with
      | none => rfl
      | some index =>
        have inside := mem_queued_of_findQueued found
        exact absurd (count_pos_iff.mpr inside) (by rw [← inQueueCount, absent]; decide)
    rw [missed]
    split
    · exact plain absent
    · exact plain absent
  | true =>
    have queued : 0 < workSpace.inQueueCount trigger :=
      count_pos_iff.mpr (contains_iff_mem.mp member)
    obtain ⟨one, other, same, flag, isJob⟩ := linked.live trigger queued
    obtain rfl := some_inj.mp (found.symm.trans same)
    rw [WorkSpace.deletable, member, Bool.not_true, Bool.false_or,
      Option.isSome_iff_exists] at deletable
    obtain ⟨index, at_⟩ := deletable
    obtain ⟨cleared, count⟩ := linked.ringed.clear at_
    obtain ⟨ringed, queued⟩ := @Ringed.of_eq _
      ((workSpace.setTrigger trigger none).setSlot index none) cleared rfl rfl rfl rfl
    have none_ : ((workSpace.setTrigger trigger none).setSlot index none).inQueueCount trigger =
        0 := by
      rw [inQueueCount, queued, count, if_pos rfl, ← inQueueCount, one]
    rw [isJob, flag, Bool.and_self, if_pos rfl, at_]
    refine linked.of_change ringed trigger (fun other apart => ?_) others
      (fun _ _ executed => executed) ⟨fun _ some_ => ?_, fun more => ?_⟩
    · rw [inQueueCount, queued, count, if_neg apart, Nat.sub_zero, inQueueCount]
    · exact absurd (gone.symm.trans some_) (some_ne_none _).symm
    · exact absurd (none_ ▸ more) (Nat.lt_irrefl 0)

theorem Linked.execute (executor : Executor) : (workSpace.execute trigger executor).Linked := by
  obtain ⟨ringed, queued⟩ := @Ringed.of_eq workSpace (workSpace.execute trigger executor)
    linked.ringed rfl rfl rfl rfl
  refine linked.of_same ringed (fun other => ?_) rfl fun other executed => ?_
  · rw [inQueueCount, queued, inQueueCount]
  · obtain ⟨frame, member, holds⟩ := executed
    exact ⟨frame, mem_cons_of_mem _ member, holds⟩

theorem Linked.popNext (executeCount : Nat) : (workSpace.popNext executeCount).Linked := by
  have taken := linked.ringed.popLoop (workSpace.endIndex - workSpace.startIndex)
  have count := taken.count
  have ringed := taken.ringed
  have triggers := taken.triggers
  have frames := taken.frames
  rw [WorkSpace.popNext, executeQueuePop]
  generalize popLoop (workSpace.endIndex - workSpace.startIndex) workSpace = popped at *
  obtain ⟨first, after⟩ := popped
  dsimp only at count ringed triggers frames ⊢
  have executed (other : TriggerPtr) (before : workSpace.Executed other) : after.Executed other := by
    rw [Executed, frames]
    exact before
  cases first with
  | none =>
    obtain ⟨same, queued⟩ := @Ringed.of_eq after { after with executeCount := none } ringed rfl rfl
      rfl rfl
    refine linked.of_same same (fun other => ?_) triggers executed
    rw [inQueueCount, queued, inQueueCount, count other, if_neg (some_ne_none _).symm, Nat.zero_add]
  | some trigger =>
    obtain ⟨same, queued⟩ := @Ringed.of_eq after
      { after.execute trigger .work with executeCount := some executeCount } ringed rfl rfl rfl rfl
    have before : 0 < workSpace.inQueueCount trigger := by
      rw [inQueueCount, count, if_pos rfl]
      omega
    obtain ⟨one, -⟩ := linked.live trigger before
    have gone : ({ after.execute trigger .work with executeCount := some executeCount } :
        WorkSpace).inQueueCount trigger = 0 := by
      rw [inQueueCount, count, if_pos rfl] at one
      rw [inQueueCount, queued]
      omega
    refine linked.of_change same trigger (fun other apart => ?_) (fun other _ => ?_)
      (fun other _ before => ?_) ⟨fun node _ _ => .inr ?_, fun more => ?_⟩
    · rw [inQueueCount, queued, inQueueCount, count other,
        if_neg fun equal => apart (some_inj.mp equal).symm, Nat.zero_add]
    · exact congrFun triggers other
    · obtain ⟨frame, member, holds⟩ := executed other before
      exact ⟨frame, mem_cons_of_mem _ member, holds⟩
    · exact ⟨⟨trigger, .work, false⟩, mem_cons_self, rfl, rfl, rfl⟩
    · rw [gone] at more
      exact absurd more (Nat.lt_irrefl 0)

theorem Linked.setFrames (frames : List Frame) (executeCount : Option Nat)
    (executed : ∀ other node, workSpace.triggers other = some node → node.inQueue = true →
      ∀ frame ∈ workSpace.frames, frame.trigger = other → frame.executor = .work →
        frame.checking = false → frame ∈ frames) :
    ({ workSpace with frames := frames, executeCount := executeCount } : WorkSpace).Linked := by
  obtain ⟨ringed, -⟩ := @Ringed.of_eq workSpace
    { workSpace with frames := frames, executeCount := executeCount } linked.ringed rfl rfl rfl rfl
  refine ⟨ringed, fun other node found flag => ?_, linked.live⟩
  refine (linked.once other node found flag).imp_right ?_
  rintro ⟨frame, member, same, work, running⟩
  exact ⟨frame, executed other node found flag frame member same work running, same, work, running⟩

theorem Linked.clearFlag (absent : workSpace.inQueueCount trigger = 0) :
    (workSpace.setFlag trigger false).Linked := by
  obtain ⟨ringed, queued⟩ := @Ringed.of_eq workSpace (workSpace.setFlag trigger false)
    linked.ringed rfl rfl rfl rfl
  have count (other : TriggerPtr) : (workSpace.setFlag trigger false).inQueueCount other =
      workSpace.inQueueCount other := by
    rw [inQueueCount, queued, inQueueCount]
  refine linked.of_change ringed trigger (fun other _ => count other)
    (fun other apart => update_of_ne apart ..) (fun _ _ executed => executed)
    ⟨fun node found flag => ?_, fun more => ?_⟩
  · have changed := (update_self ..).symm.trans found
    obtain ⟨before, -, rfl⟩ := map_eq_some_iff.mp changed
    exact absurd flag Bool.false_ne_true
  · rw [count, absent] at more
    exact absurd more (Nat.lt_irrefl 0)

theorem Linked.endFrame {frame : Frame} {rest : List Frame}
    (frames : workSpace.frames = frame :: rest)
    (found : workSpace.triggers frame.trigger = some node)
    (above : frame.checking = true ∨ node.inQueue = false)
    (deletable : workSpace.deletable frame.trigger = true) :
    (workSpace.endFrame frame rest node).Linked := by
  have ended (executeCount : Option Nat) :
      ({ workSpace with frames := rest, executeCount := executeCount } : WorkSpace).Linked := by
    refine linked.setFrames rest executeCount fun other one same flag inner member named _ running =>
      ?_
    rw [frames] at member
    rcases mem_cons.mp member with rfl | inside
    · rw [named] at found
      obtain rfl := some_inj.mp (found.symm.trans same)
      rcases above with checking | idle
      · exact absurd (checking.symm.trans running) (by decide)
      · exact absurd (flag.symm.trans idle) (by decide)
    · exact inside
  unfold WorkSpace.endFrame
  dsimp only
  split
  · exact (ended _).freeTrigger found deletable
  · exact ended _

theorem Linked.finish (meets : careful workSpace .finish = true)
    (taken : workSpace.act .finish = some next) : next.Linked := by
  rw [act] at taken
  rw [careful] at meets
  cases frames : workSpace.frames with
  | nil =>
    rw [frames] at taken
    exact absurd taken (some_ne_none _).symm
  | cons frame rest =>
    rw [frames] at taken meets
    dsimp only at taken meets
    have absent : workSpace.inQueueCount frame.trigger = 0 := by
      rw [inQueueCount, List.count_eq_zero]
      intro member
      rw [contains_iff_mem.mpr member] at meets
      exact absurd meets (by decide)
    have cleared := linked.clearFlag absent
    cases running : frame.checking with
    | true =>
      rw [running] at taken
      exact absurd taken (some_ne_none _).symm
    | false =>
      rw [running, if_neg Bool.false_ne_true] at taken
      cases found : workSpace.triggers frame.trigger with
      | none =>
        rw [found] at taken
        exact absurd taken (some_ne_none _).symm
      | some node =>
        rw [found] at taken
        dsimp only at taken
        have now : (workSpace.setFlag frame.trigger false).triggers frame.trigger =
            some { node with inQueue := false } := by
          refine (update_self ..).trans ?_
          rw [found, map_some]
        split at taken
        · obtain rfl := some_inj.mp taken
          refine cleared.setFrames _ _ fun other one same flag inner member named _ _ => ?_
          rcases mem_cons.mp (frames ▸ member) with rfl | inside
          · subst named
            obtain rfl := some_inj.mp (now.symm.trans same)
            exact absurd flag Bool.false_ne_true
          · exact mem_cons_of_mem _ inside
        · obtain rfl := some_inj.mp taken
          refine cleared.endFrame frames now (.inr rfl) ?_
          rw [WorkSpace.deletable, Bool.or_eq_true]
          exact .inl meets

theorem Linked.finishCheck (meets : careful workSpace .finishCheck = true)
    (taken : workSpace.act .finishCheck = some next) : next.Linked := by
  rw [act] at taken
  rw [careful] at meets
  cases frames : workSpace.frames with
  | nil =>
    rw [frames] at taken
    exact absurd taken (some_ne_none _).symm
  | cons frame rest =>
    rw [frames] at taken meets
    obtain ⟨checking, result⟩ := ite_none_right_eq_some.mp taken
    obtain ⟨node, found, rfl⟩ := map_eq_some_iff.mp result
    exact linked.endFrame frames found (.inl checking) meets

theorem Linked.addTrigger
    (unused : workSpace.triggers trigger = none) (idle : node.inQueue = false) :
    (workSpace.setTrigger trigger (some node)).Linked := by
  obtain ⟨ringed, queued⟩ := @Ringed.of_eq workSpace
    (workSpace.setTrigger trigger (some node)) linked.ringed rfl rfl rfl rfl
  have count (other : TriggerPtr) : (workSpace.setTrigger trigger (some node)).inQueueCount other =
        workSpace.inQueueCount other := by
    rw [inQueueCount, queued, inQueueCount]
  have absent : workSpace.inQueueCount trigger = 0 := linked.count_eq_zero fun other found =>
    absurd (unused.symm.trans found) (some_ne_none _).symm
  refine linked.of_change ringed trigger (fun other _ => count other)
    (fun other apart => update_of_ne apart ..) (fun _ _ executed => executed)
    ⟨fun other found flag => ?_, fun more => ?_⟩
  · have written : (workSpace.setTrigger trigger (some node)).triggers trigger = some node :=
      update_self ..
    obtain rfl := some_inj.mp (written.symm.trans found)
    exact absurd (flag.symm.trans idle) (by decide)
  · rw [count, absent] at more
    exact absurd more (Nat.lt_irrefl 0)

theorem Linked.queueFound (meets : careful workSpace (.checkResult trigger) = true)
    (taken : workSpace.act (.checkResult trigger) = some next) : next.Linked := by
  rw [act] at taken
  rw [careful] at meets
  cases found : workSpace.triggers trigger with
  | none =>
    rw [found] at taken
    exact absurd taken (some_ne_none _).symm
  | some node =>
    rw [found] at taken meets
    obtain ⟨isJob, result⟩ := ite_none_right_eq_some.mp taken
    obtain rfl := some_inj.mp result
    exact linked.queueTrigger found isJob meets

theorem Linked.act {action : Action}
    (meets : careful workSpace action = true) (taken : workSpace.act action = some next) :
    next.Linked := by
  cases action with
  | checkResult trigger => exact linked.queueFound meets taken
  | doTriggerExec trigger =>
    cases trigger with
    | none =>
      obtain rfl := some_inj.mp taken
      exact linked
    | some trigger => exact linked.queueFound meets taken
  | doJobExecNow trigger =>
    cases trigger with
    | none =>
      obtain rfl := some_inj.mp taken
      exact linked
    | some trigger =>
      rw [WorkSpace.act] at taken
      cases found : workSpace.triggers trigger with
      | none =>
        rw [found] at taken
        exact absurd taken (some_ne_none _).symm
      | some node =>
        rw [found] at taken
        obtain ⟨-, result⟩ := ite_none_right_eq_some.mp taken
        obtain rfl := some_inj.mp result
        exact linked.execute .now
  | executeImmediately trigger =>
    rw [WorkSpace.act] at taken
    cases found : workSpace.triggers trigger with
    | none =>
      rw [found] at taken
      exact absurd taken (some_ne_none _).symm
    | some node =>
      rw [found] at taken
      obtain rfl := some_inj.mp taken
      exact linked.execute .immediately
  | queueWork =>
    obtain ⟨-, result⟩ := ite_none_right_eq_some.mp taken
    obtain rfl := some_inj.mp result
    exact linked.popNext 0
  | popNext =>
    obtain ⟨-, result⟩ := ite_none_right_eq_some.mp taken
    obtain ⟨executeCount, -, rfl⟩ := map_eq_some_iff.mp result
    exact linked.popNext executeCount
  | finish => exact linked.finish meets taken
  | finishCheck => exact linked.finishCheck meets taken
  | freeTrigger trigger =>
    obtain ⟨node, found, rfl⟩ := map_eq_some_iff.mp taken
    exact linked.freeTrigger found meets
  | addTrigger trigger once subTrigger isJob =>
    rw [WorkSpace.act] at taken
    cases found : workSpace.triggers trigger with
    | some node =>
      rw [found] at taken
      exact absurd taken (some_ne_none _).symm
    | none =>
      rw [found] at taken
      obtain rfl := some_inj.mp taken
      exact linked.addTrigger found rfl

end

end WorkSpace

/-! ### The result -/

/-- The work space as `InitTriggerWorkSpace` leaves it, with triggers that are not queued. -/
structure Initial (workSpace : WorkSpace) : Prop where
  triggers : ∀ trigger node, workSpace.triggers trigger = some node → node.inQueue = false
  executeQueue : workSpace.executeQueue = fun _ => none
  startIndex : workSpace.startIndex = 0
  endIndex : workSpace.endIndex = 0
  overwritten : workSpace.overwritten = []

theorem Initial.linked {workSpace : WorkSpace} (initial : Initial workSpace) :
    workSpace.Linked := by
  obtain ⟨triggers, executeQueue, startIndex, endIndex, overwritten⟩ := initial
  have queued : workSpace.queued = [] := by
    rw [WorkSpace.queued, startIndex, endIndex]
    rfl
  refine ⟨⟨?_, ?_, ?_, fun _ _ _ => ?_, overwritten⟩, fun trigger node found flag => ?_,
    fun trigger more => ?_⟩
  · rw [startIndex, endIndex]
  · rw [endIndex]
    exact Nat.zero_le _
  · rw [endIndex]
    decide
  · rw [executeQueue]
  · exact absurd (flag.symm.trans (triggers trigger node found)) (by decide)
  · rw [WorkSpace.inQueueCount, queued] at more
    exact absurd more (Nat.lt_irrefl 0)

/-- In every run of careful steps the flags are in step with the queue. -/
theorem inStep_of_reachable {workSpace : WorkSpace}
    (reached : Reachable WorkSpace.step (fun workSpace action => careful workSpace action = true)
      Initial workSpace) : workSpace.InStep := by
  have linked : workSpace.Linked := reached.invariant (fun _ initial => initial.linked)
    fun _ _ _ _ linked meets taken =>
      linked.act meets (Option.ite_none_left_eq_some.mp taken).2
  exact linked.inStep

/-! ### Runs of a few triggers -/

/-- A work space with a number of jobs, of which the first has a check after its commands, and the
second is freed after its execution. -/
def jobs (count : Nat) : WorkSpace where
  triggers trigger := if trigger < count then some ⟨false, trigger == 1, trigger == 0, true⟩ else none
  executeQueue _ := none
  startIndex := 0
  endIndex := 0
  frames := []
  executeCount := none
  overwritten := []

theorem initial_jobs (count : Nat) : Initial (jobs count) := by
  refine ⟨fun trigger node found => ?_, rfl, rfl, rfl, rfl⟩
  obtain ⟨-, result⟩ := ite_none_right_eq_some.mp found
  obtain rfl := some_inj.mp result
  rfl

/-- Three triggers are queued; the first one queues itself again in the check after its commands,
and there the third one is deleted. -/
def carefulRun : List Action :=
  [.checkResult 0, .checkResult 1, .doTriggerExec (some 2), .checkResult 2, .queueWork,
    .doTriggerExec (some 0), .doJobExecNow (some 3), .finish, .finish, .executeImmediately 3,
    .doTriggerExec (some 0), .freeTrigger 2, .finish, .finishCheck, .popNext, .finish, .popNext,
    .finish, .finishCheck, .popNext, .addTrigger 1 true false true, .checkResult 1]

theorem inStep_of_reachable_sample : ∃ workSpace,
    execute WorkSpace.step careful (jobs 4) carefulRun = some workSpace ∧ workSpace.InStep := by
  have runs : (execute WorkSpace.step careful (jobs 4) carefulRun).isSome = true := by
    decide +kernel
  obtain ⟨workSpace, result⟩ := Option.isSome_iff_exists.mp runs
  exact ⟨workSpace, result, inStep_of_reachable
    (.of_execute (fun _ _ meets => meets) _ (.start (initial_jobs 4)) result)⟩

/-- Whether a trigger is queued without its flag, or was overwritten. -/
def WorkSpace.broken (workSpace : WorkSpace) : Bool :=
  (workSpace.queued.any fun entry => entry.any fun trigger =>
    !(workSpace.triggers trigger).any TriggerNode.inQueue) || !workSpace.overwritten.isEmpty

theorem WorkSpace.not_inStep {workSpace : WorkSpace} (broken : workSpace.broken = true) :
    ¬workSpace.InStep := by
  intro inStep
  rw [WorkSpace.broken, inStep.kept, isEmpty_nil, Bool.not_true, Bool.or_false,
    any_eq_true] at broken
  obtain ⟨entry, member, holds⟩ := broken
  cases entry with
  | none => exact absurd holds Bool.false_ne_true
  | some trigger =>
    obtain ⟨-, node, found, flag⟩ := inStep.live trigger member
    rw [any_some, found, any_some, flag] at holds
    exact absurd holds Bool.false_ne_true

/-- A queued trigger is executed by `DoJobExecNow`. -/
def executedNow : List Action :=
  [.doTriggerExec (some 2), .doJobExecNow (some 2), .finish]

def overfull : List Action :=
  (List.range (triggerExecuteQueue + 1)).map .checkResult

/-- A trigger is executed so often that the indexes pass the size of the queue, and deleted. -/
def deletedLate : List Action :=
  (List.replicate triggerExecuteQueue
    [Action.checkResult 2, .queueWork, .finish, .popNext]).flatten ++
      [.checkResult 2, .freeTrigger 2]

/-- From an empty queue some actions execute and leave the queue out of step with the flags, with
no execution that could still put it right. -/
def LeavesStep (actions : List Action) : Prop :=
  ∃ workSpace, execute WorkSpace.step (fun _ _ => true) (jobs 65) actions = some workSpace ∧
    Reachable WorkSpace.step (fun _ _ => True) Initial workSpace ∧
      workSpace.frames = [] ∧ ¬workSpace.InStep

theorem leavesStep_of_broken {actions : List Action}
    (run : (execute WorkSpace.step (fun _ _ => true) (jobs 65) actions).map
      (fun workSpace => (workSpace.broken, workSpace.frames)) = some (true, [])) :
    LeavesStep actions := by
  obtain ⟨workSpace, result, shape⟩ := map_eq_some_iff.mp run
  rw [Prod.mk.injEq] at shape
  exact ⟨workSpace, result, .of_execute (fun _ _ _ => trivial) _ (.start (initial_jobs 65)) result,
    shape.2, WorkSpace.not_inStep shape.1⟩

/-- The flag of a queued trigger is cleared, a queued trigger is overwritten, or a freed one stays
in the queue, and no execution goes on. -/
theorem out_of_step : LeavesStep executedNow ∧ LeavesStep overfull ∧ LeavesStep deletedLate :=
  ⟨leavesStep_of_broken (by decide +kernel), leavesStep_of_broken (by decide +kernel),
    leavesStep_of_broken (by decide +kernel)⟩

end TowerSafe.TriggerQueue
