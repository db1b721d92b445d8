/-
This file embeds `poll.c`: calls of `poll`, each with a table on its stack, wait queues of nodes
that refer to tables, and `PollNotify`. A table has room for one node only. In every run in which
each call registers exactly once, no node is left in a queue when its call returns, and a call that
is blocked is woken by what its descriptors asked for.
-/

import TowerSafe.Library.Transition
import Mathlib.Data.List.Nodup
import Mathlib.Logic.Function.Basic

namespace TowerSafe.Poll

open Library List Option
open Function (update update_self update_of_ne)

/-! ### Tables, nodes and queues -/

abbrev PollEvent := BitVec 32

def pollErr : PollEvent := 0x8

def pollHup : PollEvent := 0x10

def osSemCountingMaxCount : Nat := 0xffff

/-- `struct pollfd`, with the wait queue of the device behind it. -/
structure Pollfd where
  fd : Int
  events : PollEvent
  queue : Nat
  deriving DecidableEq

/-- The events that `QueryFds` asks for. -/
def Pollfd.asked (pollfd : Pollfd) : PollEvent := pollfd.events ||| pollErr ||| pollHup

/-- `struct PollTable`. Of its semaphore, the count. -/
structure PollTable where
  node : Option Nat
  event : PollEvent
  semCount : Nat
  addQueueFlag : Bool
  deriving DecidableEq

/-- Where a call is: in `QueryFds` before a descriptor or in the driver of one, in
`AddPollWaitQueue` for one, at the head of the loop of `PollTimedWait`, before or in `LOS_SemPend`,
or before one of the steps of `DestroyPollWait`. -/
inductive Phase
  | query (index : Nat)
  | driver (index : Nat)
  | add (index : Nat)
  | loop
  | pend
  | waiting
  | unlink
  | free
  | delete
  deriving DecidableEq

/-- A call of `poll`. `timed` is whether it is in `PollTimedWait`. -/
structure Call where
  fds : List Pollfd
  timeout : Int
  table : PollTable
  count : Int
  timed : Bool
  phase : Phase
  deriving DecidableEq

/-- The calls, by the addresses of their tables; the nodes that are allocated, each with the address
of its table; and the wait queues. -/
structure State where
  calls : Nat → Option Call
  nodes : Nat → Option Nat
  queues : Nat → List Nat

/-- What the driver of a descriptor answers: an error, or the events that there are. -/
inductive Answer
  | failed (error : Int)
  | found (event : PollEvent)
  deriving DecidableEq

/-- What comes to a step of a call from outside: the answer of a driver, the address of a new node,
whether the time has elapsed, and whether `LOS_SemPend` refuses to wait. -/
structure Input where
  answer : Answer
  granted : Option Nat
  elapsed : Bool
  refused : Bool
  deriving DecidableEq

namespace Call

/-- `QueryFds` begins. -/
def queryFds (call : Call) : Call := { call with count := 0, phase := .query 0 }

/-- `QueryFds` returns, to `poll` or to `PollTimedWait`. -/
def queried (call : Call) (count : Int) : Call :=
  if call.timed then { call with count := count, phase := if count = 0 then .loop else .unlink }
  else if count ≠ 0 ∨ call.timeout = 0 then { call with count := count, phase := .unlink }
  else
    { call with
      count := count
      table := { call.table with addQueueFlag := false }
      timed := true
      phase := .loop }

/-- Before the descriptor at a place. -/
def query (call : Call) (index : Nat) : Call :=
  match call.fds[index]? with
  | none => call.queried call.count
  | some pollfd =>
      if pollfd.fd < 0 then call.queried (-1)
      else
        { call with
          table := { call.table with event := pollfd.asked }
          phase := .driver index }

/-- The driver of the descriptor at a place, which is as `PipePoll`: when there is none of the
events in the table it calls `PollWait`. What it returns is an error if it is negative. -/
def driver (call : Call) (index : Nat) : Answer → Call
  | .failed _ => call.queried (-1)
  | .found event =>
      if (event &&& call.table.event).msb then call.queried (-1)
      else if event &&& call.table.event = 0 then
        { call with phase := if call.table.addQueueFlag then .add index else .query (index + 1) }
      else
        { call with
          count := call.count + 1
          table := { call.table with addQueueFlag := false }
          phase := .query (index + 1) }

/-- The head of the loop in `PollTimedWait`. -/
def loop (call : Call) (elapsed : Bool) : Call :=
  if call.timeout < 0 then { call with phase := .pend }
  else if elapsed then { call with phase := .unlink }
  else { call with phase := .pend }

/-- `LOS_SemPend`, when it returns at once or begins to wait. -/
def pend (call : Call) (refused : Bool) : Call :=
  if refused then if call.timeout < 0 then { call with phase := .unlink } else call.queryFds
  else if 0 < call.table.semCount then
    { call with table := { call.table with semCount := call.table.semCount - 1 } }.queryFds
  else { call with phase := .waiting }

/-- `LOS_SemPost` for the semaphore of the call: it wakes the call if it waits. -/
def post (call : Call) : Call :=
  if call.phase = .waiting then call.queryFds
  else if call.table.semCount = osSemCountingMaxCount then call
  else { call with table := { call.table with semCount := call.table.semCount + 1 } }

end Call

namespace State

def setCall (state : State) (id : Nat) (call : Call) : State :=
  { state with calls := update state.calls id (some call) }

/-- `AddPollWaitQueue` for the descriptor at a place. -/
def addPollWaitQueue (state : State) (id : Nat) (call : Call) (index : Nat) :
    Option Nat → Option State
  | none => some (state.setCall id { call with phase := .query (index + 1) })
  | some waitNode =>
      if (state.nodes waitNode).isSome then none
      else
        call.fds[index]?.map fun pollfd =>
          { state.setCall id
              { call with
                table := { call.table with node := some waitNode }
                phase := .query (index + 1) } with
            nodes := update state.nodes waitNode (some id)
            queues := update state.queues pollfd.queue
              (waitNode :: state.queues pollfd.queue) }

/-- A step of a call. To unlink or to free no node is undefined. -/
def run (state : State) (id : Nat) (call : Call) (input : Input) : Option State :=
  match call.phase with
  | .query index => some (state.setCall id (call.query index))
  | .driver index => some (state.setCall id (call.driver index input.answer))
  | .add index => state.addPollWaitQueue id call index input.granted
  | .loop => some (state.setCall id (call.loop input.elapsed))
  | .pend => some (state.setCall id (call.pend input.refused))
  | .waiting =>
      if 0 < call.timeout ∧ input.elapsed = true then
        some (state.setCall id { call with phase := .unlink })
      else none
  | .unlink =>
      call.table.node.map fun waitNode =>
        { state.setCall id { call with phase := .free } with
          queues := fun queue => (state.queues queue).erase waitNode }
  | .free =>
      call.table.node.map fun waitNode =>
        { state.setCall id { call with phase := .delete } with
          nodes := update state.nodes waitNode none }
  | .delete => some { state with calls := update state.calls id none }

/-- A node of the queue in `PollNotify`. What happens at a node whose table or memory is gone is
not known, and left out. -/
def notifyNode (event : PollEvent) (state : State) (waitNode : Nat) : State :=
  match state.nodes waitNode with
  | none => state
  | some id =>
      match state.calls id with
      | none => state
      | some call =>
          if event = 0 ∨ event &&& call.table.event ≠ 0 then state.setCall id call.post else state

def pollNotify (state : State) (queue : Nat) (event : PollEvent) : State :=
  (state.queues queue).foldl (notifyNode event) state

end State

/-- `poll` is called, with the address of its table, and `LOS_SemCreate` succeeds or not; a call
goes a step; or a driver notifies. -/
inductive Action
  | poll (id : Nat) (fds : List Pollfd) (timeout : Int) (sem : Bool)
  | run (id : Nat) (input : Input)
  | notify (queue : Nat) (event : PollEvent)
  deriving DecidableEq

def step (state : State) : Action → Option State
  | .poll id fds timeout sem =>
      if (state.calls id).isSome then none
      else if sem = false then some state
      else
        some (state.setCall id
          (Call.queryFds ⟨fds, timeout, ⟨none, 0, 0, timeout != 0⟩, 0, false, .query 0⟩))
  | .run id input => (state.calls id).bind fun call => state.run id call input
  | .notify queue event => some (state.pollNotify queue event)

def initial : State := ⟨fun _ => none, fun _ => none, fun _ => []⟩

/-! ### What registration is to do -/

/-- The nodes in the queues are allocated, and refer to tables of calls that have not returned; what
a call unlinks or frees is a node that was allocated for it; and a call that waits is woken by each
event that one of its entries asked for. -/
structure State.Registered (state : State) : Prop where
  live : ∀ queue, ∀ waitNode ∈ state.queues queue, ∃ id call,
    state.nodes waitNode = some id ∧ state.calls id = some call
  allocated : ∀ id call, state.calls id = some call →
    call.phase = .unlink ∨ call.phase = .free → ∃ waitNode,
      call.table.node = some waitNode ∧ state.nodes waitNode = some id
  woken : ∀ id call, state.calls id = some call → call.phase = .waiting →
    ∀ pollfd ∈ call.fds, ∀ event, event &&& pollfd.asked ≠ 0 →
      (state.pollNotify pollfd.queue event).calls id = some call.queryFds

/-- All descriptors are behind one queue, and the last entry asks for what the others do. -/
def uniform (fds : List Pollfd) : Bool :=
  match fds.getLast? with
  | none => false
  | some last => fds.all fun pollfd =>
      pollfd.queue == last.queue && (pollfd.asked ||| last.asked) == last.asked

/-- `QueryFds` returns in this step. -/
def Call.returns (call : Call) (input : Input) : Bool :=
  match call.phase with
  | .query index => call.fds[index]?.all fun pollfd => decide (pollfd.fd < 0)
  | .driver _ =>
      match input.answer with
      | .failed _ => true
      | .found event => (event &&& call.table.event).msb
  | _ => false

/-- A call goes on carefully when a descriptor is registered only if none is, the first `QueryFds`
returns only if one is, and the call waits only for descriptors that one node serves. -/
def Call.careful (call : Call) (input : Input) : Bool :=
  match call.phase with
  | .add _ => input.granted.isNone || call.table.node.isNone
  | .pend => input.refused || decide (0 < call.table.semCount) || uniform call.fds
  | _ => call.timed || !call.returns input || call.table.node.isSome

def careful (state : State) : Action → Bool
  | .run id input => (state.calls id).all fun call => call.careful input
  | _ => true

/-! ### What holds of one call -/

namespace Call

variable {call next : Call} {index : Nat} {input : Input}

/-- What the table asks for is what the entry before, at or behind the place of the call does. -/
def Asks (call : Call) : Phase → Prop
  | .query index => index ≤ call.fds.length ∧ ∀ before, index = before + 1 →
      ∃ pollfd, call.fds[before]? = some pollfd ∧ call.table.event = pollfd.asked
  | .driver index | .add index =>
      ∃ pollfd, call.fds[index]? = some pollfd ∧ call.table.event = pollfd.asked
  | .loop | .pend | .waiting =>
      ∀ pollfd, call.fds.getLast? = some pollfd → call.table.event = pollfd.asked
  | .unlink | .free | .delete => True

/-- What holds of a call at every step. -/
structure Ok (call : Call) : Prop where
  noded : call.timed = true → call.table.node.isSome = true
  last : call.phase = .unlink ∨ call.phase = .free → call.table.node.isSome = true
  early : call.phase = .loop ∨ call.phase = .pend ∨ call.phase = .waiting → call.timed = true
  asks : call.Asks call.phase
  waits : call.phase = .waiting → uniform call.fds = true

/-- The call is at the same table, and as far with its node. -/
structure Alike (call next : Call) : Prop where
  fds : next.fds = call.fds
  node : next.table.node = call.table.node
  free : next.phase = .free ↔ call.phase = .free
  delete : next.phase = .delete ↔ call.phase = .delete

theorem Ok.queryFds (noded : call.timed = true → call.table.node.isSome = true) :
    call.queryFds.Ok where
  noded := noded
  last := fun last => by rcases last with no | no <;> cases no
  early := fun early => by rcases early with no | no | no <;> cases no
  asks := ⟨Nat.zero_le _, fun _ no => by cases no⟩
  waits := fun no => by cases no

theorem Ok.queried {count : Int} (noded : call.table.node.isSome = true)
    (asks : count = 0 → ∀ pollfd, call.fds.getLast? = some pollfd →
      call.table.event = pollfd.asked) : (call.queried count).Ok := by
  unfold Call.queried
  split
  · rename_i timed
    by_cases none_ : count = 0
    · rw [if_pos none_]
      exact ⟨fun _ => noded, fun _ => noded, fun _ => timed, asks none_, fun no => by cases no⟩
    · rw [if_neg none_]
      refine ⟨fun _ => noded, fun _ => noded, fun early => ?_, trivial, fun no => by cases no⟩
      rcases early with no | no | no <;> cases no
  · split
    · refine ⟨fun _ => noded, fun _ => noded, fun early => ?_, trivial, fun no => by cases no⟩
      rcases early with no | no | no <;> cases no
    rename_i none_
    have none_ : count = 0 := by
      by_contra some_
      exact none_ (.inl some_)
    exact ⟨fun _ => noded, fun _ => noded, fun _ => rfl, asks none_, fun no => by cases no⟩

theorem Alike.of_phase (fds : next.fds = call.fds) (node : next.table.node = call.table.node)
    (before : call.phase ≠ .free ∧ call.phase ≠ .delete)
    (after : next.phase ≠ .free ∧ next.phase ≠ .delete) : call.Alike next :=
  ⟨fds, node, iff_of_false after.1 before.1, iff_of_false after.2 before.2⟩

theorem Alike.queried (call : Call) (count : Int)
    (before : call.phase ≠ .free ∧ call.phase ≠ .delete) : call.Alike (call.queried count) := by
  unfold Call.queried
  split
  · refine .of_phase rfl rfl before ?_
    split
    · exact ⟨nofun, nofun⟩
    · exact ⟨nofun, nofun⟩
  · split
    · exact .of_phase rfl rfl before ⟨nofun, nofun⟩
    · exact .of_phase rfl rfl before ⟨nofun, nofun⟩

theorem Ok.noded_of_returns (ok : call.Ok) (returns : call.returns input = true)
    (careful : call.careful input = true) : call.table.node.isSome = true := by
  have cases_ : (call.timed || !call.returns input || call.table.node.isSome) = true := by
    unfold Call.careful at careful
    cases phase : call.phase with
    | query index => simpa only [phase] using careful
    | driver index => simpa only [phase] using careful
    | _ =>
      rw [Call.returns, phase] at returns
      cases returns
  rw [returns, Bool.not_true, Bool.or_false, Bool.or_eq_true] at cases_
  exact cases_.elim ok.noded id

theorem Ok.query (ok : call.Ok) (phase : call.phase = .query index)
    (careful : call.careful input = true) :
    (call.query index).Ok ∧ call.Alike (call.query index) := by
  have before : call.phase ≠ .free ∧ call.phase ≠ .delete := by
    rw [phase]
    exact ⟨nofun, nofun⟩
  have asks := ok.asks
  rw [phase] at asks
  obtain ⟨inside, asks⟩ := asks
  unfold Call.query
  cases here : call.fds[index]? with
  | none =>
    have ending : index = call.fds.length :=
      Nat.le_antisymm inside (List.getElem?_eq_none_iff.mp here)
    have returns : call.returns input = true := by
      rw [Call.returns, phase]
      dsimp only
      rw [here]
      rfl
    refine ⟨.queried (ok.noded_of_returns returns careful) fun _ last isLast => ?_,
      .queried call call.count before⟩
    rw [List.getLast?_eq_getElem?] at isLast
    have some_ : index ≠ 0 := fun zero => by
      rw [zero] at ending
      rw [length_eq_zero_iff.mp ending.symm] at isLast
      cases isLast
    obtain ⟨pollfd, isBefore, event⟩ := asks (index - 1) (by omega)
    rw [← ending, isBefore] at isLast
    obtain rfl := some.inj isLast
    exact event
  | some pollfd =>
    dsimp only
    split
    · rename_i negative
      have returns : call.returns input = true := by
        rw [Call.returns, phase]
        dsimp only
        rw [here]
        exact decide_eq_true negative
      exact ⟨.queried (ok.noded_of_returns returns careful) (fun no => by cases no),
        .queried call (-1) before⟩
    · refine ⟨⟨ok.noded, fun last => ?_, fun early => ?_, ⟨pollfd, here, rfl⟩,
        fun no => by cases no⟩, .of_phase rfl rfl before ⟨nofun, nofun⟩⟩
      · rcases last with no | no <;> cases no
      · rcases early with no | no | no <;> cases no

theorem Ok.driver (ok : call.Ok) (phase : call.phase = .driver index)
    (careful : call.careful input = true) :
    (call.driver index input.answer).Ok ∧ call.Alike (call.driver index input.answer) := by
  have before : call.phase ≠ .free ∧ call.phase ≠ .delete := by
    rw [phase]
    exact ⟨nofun, nofun⟩
  have asks := ok.asks
  rw [phase] at asks
  obtain ⟨pollfd, here, event⟩ := asks
  have inside := (List.getElem?_eq_some_iff.mp here).1
  have onwards : ∀ behind, index + 1 = behind + 1 →
      ∃ pollfd, call.fds[behind]? = some pollfd ∧ call.table.event = pollfd.asked :=
    fun behind next => by
      obtain rfl := Nat.succ.inj next
      exact ⟨pollfd, here, event⟩
  unfold Call.driver
  cases answer : input.answer with
  | failed error =>
    have returns : call.returns input = true := by
      rw [Call.returns, phase]
      rw [answer]
    exact ⟨.queried (ok.noded_of_returns returns careful) (fun no => by cases no),
      .queried call (-1) before⟩
  | found found =>
    dsimp only
    split
    · rename_i negative
      have returns : call.returns input = true := by
        rw [Call.returns, phase]
        rw [answer]
        exact negative
      exact ⟨.queried (ok.noded_of_returns returns careful) (fun no => by cases no),
        .queried call (-1) before⟩
    · split
      · cases call.table.addQueueFlag with
        | true =>
          refine ⟨⟨ok.noded, fun last => ?_, fun early => ?_, ⟨pollfd, here, event⟩,
            fun no => by cases no⟩,
            .of_phase rfl rfl before ⟨nofun, nofun⟩⟩
          · rcases last with no | no <;> cases no
          · rcases early with no | no | no <;> cases no
        | false =>
          refine ⟨⟨ok.noded, fun last => ?_, fun early => ?_, ⟨inside, onwards⟩,
            fun no => by cases no⟩,
            .of_phase rfl rfl before ⟨nofun, nofun⟩⟩
          · rcases last with no | no <;> cases no
          · rcases early with no | no | no <;> cases no
      · refine ⟨⟨ok.noded, fun last => ?_, fun early => ?_, ⟨inside, onwards⟩,
          fun no => by cases no⟩,
          .of_phase rfl rfl before ⟨nofun, nofun⟩⟩
        · rcases last with no | no <;> cases no
        · rcases early with no | no | no <;> cases no

theorem Ok.loop (ok : call.Ok) (phase : call.phase = .loop) (elapsed : Bool) :
    (call.loop elapsed).Ok ∧ call.Alike (call.loop elapsed) := by
  have before : call.phase ≠ .free ∧ call.phase ≠ .delete := by
    rw [phase]
    exact ⟨nofun, nofun⟩
  have timed := ok.early (.inl phase)
  have asks := ok.asks
  rw [phase] at asks
  have pends : Call.Ok { call with phase := .pend } :=
    ⟨ok.noded, fun _ => ok.noded timed, fun _ => timed, asks, fun no => by cases no⟩
  unfold Call.loop
  split
  · exact ⟨pends, .of_phase rfl rfl before ⟨nofun, nofun⟩⟩
  split
  · exact ⟨⟨ok.noded, fun _ => ok.noded timed, fun _ => timed, trivial, fun no => by cases no⟩,
      .of_phase rfl rfl before ⟨nofun, nofun⟩⟩
  · exact ⟨pends, .of_phase rfl rfl before ⟨nofun, nofun⟩⟩

theorem Ok.pend (ok : call.Ok) (phase : call.phase = .pend) (careful : call.careful input = true) :
    (call.pend input.refused).Ok ∧ call.Alike (call.pend input.refused) := by
  have before : call.phase ≠ .free ∧ call.phase ≠ .delete := by
    rw [phase]
    exact ⟨nofun, nofun⟩
  have timed := ok.early (.inr (.inl phase))
  have asks := ok.asks
  rw [phase] at asks
  rw [Call.careful, phase] at careful
  unfold Call.pend
  cases refused : input.refused with
  | true =>
    rw [if_pos rfl]
    split
    · exact ⟨⟨ok.noded, fun _ => ok.noded timed, fun _ => timed, trivial, fun no => by cases no⟩,
        .of_phase rfl rfl before ⟨nofun, nofun⟩⟩
    · exact ⟨.queryFds ok.noded, .of_phase rfl rfl before ⟨nofun, nofun⟩⟩
  | false =>
    rw [if_neg Bool.false_ne_true]
    split
    · exact ⟨.queryFds ok.noded, .of_phase rfl rfl before ⟨nofun, nofun⟩⟩
    rename_i zero
    have waits : uniform call.fds = true := by
      simpa only [refused, decide_eq_false zero, Bool.false_or] using careful
    exact ⟨⟨ok.noded, fun _ => ok.noded timed, fun _ => timed, asks, fun _ => waits⟩,
      .of_phase rfl rfl before ⟨nofun, nofun⟩⟩

theorem Ok.post (ok : call.Ok) : call.post.Ok ∧ call.Alike call.post := by
  unfold Call.post
  split
  · rename_i waiting
    exact ⟨.queryFds ok.noded, .of_phase rfl rfl (by rw [waiting]; exact ⟨nofun, nofun⟩)
      ⟨nofun, nofun⟩⟩
  · split
    · exact ⟨ok, rfl, rfl, Iff.rfl, Iff.rfl⟩
    · refine ⟨⟨ok.noded, ok.last, ok.early, ?_, ok.waits⟩, rfl, rfl, Iff.rfl, Iff.rfl⟩
      exact ok.asks

end Call

/-! ### What holds of nodes and queues -/

namespace State

variable {state next : State} {id waitNode index : Nat} {call changed : Call} {pollfd : Pollfd}

/-- Every node belongs to the one call that has it in its table, and is in a queue of one of the
descriptors of that call until it is unlinked. -/
structure Linked (state : State) : Prop where
  ok : ∀ id call, state.calls id = some call → call.Ok
  owned : ∀ waitNode id, state.nodes waitNode = some id → ∃ call,
    state.calls id = some call ∧ call.table.node = some waitNode ∧ call.phase ≠ .delete
  placed : ∀ id call waitNode, state.calls id = some call → call.table.node = some waitNode →
    call.phase ≠ .delete → state.nodes waitNode = some id ∧
      (call.phase ≠ .free → ∃ pollfd ∈ call.fds, waitNode ∈ state.queues pollfd.queue)
  queued : ∀ queue, ∀ waitNode ∈ state.queues queue, ∃ id call,
    state.nodes waitNode = some id ∧ state.calls id = some call ∧ call.phase ≠ .free
  nodup : ∀ queue, (state.queues queue).Nodup

@[simp] theorem setCall_calls (state : State) (id : Nat) (call : Call) :
    (state.setCall id call).calls id = some call :=
  update_self ..

theorem setCall_other {other : Nat} (state : State) (call : Call) (different : other ≠ id) :
    (state.setCall id call).calls other = state.calls other :=
  update_of_ne different _ _

theorem calls_of_setCall (calls : next.calls = (state.setCall id changed).calls) :
    next.calls id = some changed ∧ ∀ other, other ≠ id → next.calls other = state.calls other := by
  rw [calls]
  exact ⟨setCall_calls .., fun other => setCall_other state changed⟩

section

variable (linked : state.Linked)
include linked

theorem Linked.ok_of_setCall (calls : next.calls = (state.setCall id changed).calls)
    (ok : changed.Ok) (other : Nat) (now : Call) (found : next.calls other = some now) : now.Ok := by
  obtain ⟨new, old⟩ := calls_of_setCall calls
  by_cases same : other = id
  · subst same
    obtain rfl := some.inj (new.symm.trans found)
    exact ok
  · exact linked.ok other now ((old other same).symm.trans found)

theorem Linked.setCall (here : state.calls id = some call)
    (ok : changed.Ok) (alike : call.Alike changed) : (state.setCall id changed).Linked where
  ok := linked.ok_of_setCall rfl ok
  owned := fun waitNode other belongs => by
    obtain ⟨now, found, has, kept⟩ := linked.owned waitNode other belongs
    by_cases same : other = id
    · subst same
      obtain rfl := some.inj (here.symm.trans found)
      exact ⟨changed, setCall_calls .., alike.node.trans has, mt alike.delete.mp kept⟩
    · exact ⟨now, (setCall_other state changed same).trans found, has, kept⟩
  placed := fun other now waitNode found has kept => by
    by_cases same : other = id
    · subst same
      obtain rfl := some.inj ((setCall_calls ..).symm.trans found)
      obtain ⟨belongs, placed⟩ := linked.placed other call waitNode here
        (alike.node.symm.trans has) (mt alike.delete.mpr kept)
      exact ⟨belongs, fun linked => alike.fds ▸ placed (mt alike.free.mpr linked)⟩
    · exact linked.placed other now waitNode
        ((setCall_other state changed same).symm.trans found) has kept
  queued := fun queue waitNode member => by
    obtain ⟨other, now, belongs, found, kept⟩ := linked.queued queue waitNode member
    by_cases same : other = id
    · subst same
      obtain rfl := some.inj (here.symm.trans found)
      exact ⟨other, changed, belongs, setCall_calls .., mt alike.free.mp kept⟩
    · exact ⟨other, now, belongs, (setCall_other state changed same).trans found, kept⟩
  nodup := linked.nodup

theorem Linked.poll (fresh : state.calls id = none) (ok : call.Ok)
    (none_ : call.table.node = none) : (state.setCall id call).Linked where
  ok := linked.ok_of_setCall rfl ok
  owned := fun waitNode other belongs => by
    obtain ⟨now, found, has⟩ := linked.owned waitNode other belongs
    have different : other ≠ id := fun same => by
      rw [same, fresh] at found
      cases found
    exact ⟨now, (setCall_other state call different).trans found, has⟩
  placed := fun other now waitNode found has kept => by
    by_cases same : other = id
    · subst same
      obtain rfl := some.inj ((setCall_calls ..).symm.trans found)
      rw [none_] at has
      cases has
    · exact linked.placed other now waitNode ((setCall_other state call same).symm.trans found)
        has kept
  queued := fun queue waitNode member => by
    obtain ⟨other, now, belongs, found, kept⟩ := linked.queued queue waitNode member
    have different : other ≠ id := fun same => by
      rw [same, fresh] at found
      cases found
    exact ⟨other, now, belongs, (setCall_other state call different).trans found, kept⟩
  nodup := linked.nodup

section

variable (here : state.calls id = some call)
include here

theorem Linked.add
    (none_ : call.table.node = none) (fresh : state.nodes waitNode = none)
    (member : pollfd ∈ call.fds) (ok : changed.Ok) (fds : changed.fds = call.fds)
    (node : changed.table.node = some waitNode)
    (phase : changed.phase ≠ .free ∧ changed.phase ≠ .delete)
    (calls : next.calls = (state.setCall id changed).calls)
    (nodes : next.nodes = update state.nodes waitNode (some id))
    (queues : next.queues = update state.queues pollfd.queue
      (waitNode :: state.queues pollfd.queue)) : next.Linked := by
  obtain ⟨new, old⟩ := calls_of_setCall calls
  have nodeOld : ∀ other, other ≠ waitNode → next.nodes other = state.nodes other :=
    fun other different => by rw [nodes, update_of_ne different]
  have nodeNew : next.nodes waitNode = some id := by rw [nodes, update_self]
  have unlinked : ∀ queue, waitNode ∉ state.queues queue := fun queue there => by
    obtain ⟨other, now, belongs, -⟩ := linked.queued queue waitNode there
    rw [fresh] at belongs
    cases belongs
  have longer : ∀ queue other, other ∈ state.queues queue → other ∈ next.queues queue :=
    fun queue other there => by
      rw [queues]
      by_cases same : queue = pollfd.queue
      · subst same
        rw [update_self]
        exact mem_cons_of_mem _ there
      · rwa [update_of_ne same]
  have shorter : ∀ queue other, other ∈ next.queues queue → other ≠ waitNode →
      other ∈ state.queues queue := fun queue other there different => by
    rw [queues] at there
    by_cases same : queue = pollfd.queue
    · subst same
      rw [update_self] at there
      exact mem_of_ne_of_mem different there
    · rwa [update_of_ne same] at there
  refine ⟨linked.ok_of_setCall calls ok, fun other owner belongs => ?_,
    fun other now third found has kept => ?_, fun queue other there => ?_, fun queue => ?_⟩
  · by_cases same : other = waitNode
    · subst same
      obtain rfl := some.inj (nodeNew.symm.trans belongs)
      exact ⟨changed, new, node, phase.2⟩
    obtain ⟨now, found, has, kept⟩ :=
      linked.owned other owner ((nodeOld other same).symm.trans belongs)
    have different : owner ≠ id := fun equal => by
      subst equal
      obtain rfl := some.inj (here.symm.trans found)
      rw [none_] at has
      cases has
    exact ⟨now, (old owner different).trans found, has, kept⟩
  · by_cases same : other = id
    · subst same
      obtain rfl := some.inj (new.symm.trans found)
      obtain rfl := some.inj (node.symm.trans has)
      refine ⟨nodeNew, fun _ => ⟨pollfd, fds ▸ member, ?_⟩⟩
      rw [queues, update_self]
      exact mem_cons_self
    · obtain ⟨belongs, placed⟩ :=
        linked.placed other now third ((old other same).symm.trans found) has kept
      have different : third ≠ waitNode := fun equal => by
        rw [equal, fresh] at belongs
        cases belongs
      exact ⟨(nodeOld third different).trans belongs, fun unfreed =>
        (placed unfreed).imp fun pollfd there => ⟨there.1, longer _ _ there.2⟩⟩
  · by_cases same : other = waitNode
    · subst same
      exact ⟨id, changed, nodeNew, new, phase.1⟩
    obtain ⟨owner, now, belongs, found, kept⟩ := linked.queued queue other
      (shorter queue other there same)
    by_cases equal : owner = id
    · subst equal
      exact ⟨owner, changed, (nodeOld other same).trans belongs, new, phase.1⟩
    · exact ⟨owner, now, (nodeOld other same).trans belongs, (old owner equal).trans found, kept⟩
  · rw [queues]
    by_cases same : queue = pollfd.queue
    · subst same
      rw [update_self]
      exact nodup_cons.mpr ⟨unlinked _, linked.nodup _⟩
    · rw [update_of_ne same]
      exact linked.nodup queue

theorem Linked.unlink
    (phase : call.phase = .unlink) (node : call.table.node = some waitNode) (ok : changed.Ok)
    (sameNode : changed.table.node = call.table.node) (freeing : changed.phase = .free)
    (calls : next.calls = (state.setCall id changed).calls) (nodes : next.nodes = state.nodes)
    (queues : next.queues = fun queue => (state.queues queue).erase waitNode) : next.Linked := by
  obtain ⟨new, old⟩ := calls_of_setCall calls
  have own := (linked.placed id call waitNode here node (by rw [phase]; exact nofun)).1
  refine ⟨linked.ok_of_setCall calls ok, fun other owner belongs => ?_,
    fun other now third found has kept => ?_, fun queue other there => ?_, fun queue => ?_⟩
  · rw [nodes] at belongs
    obtain ⟨now, found, has, kept⟩ := linked.owned other owner belongs
    by_cases same : owner = id
    · subst same
      obtain rfl := some.inj (here.symm.trans found)
      exact ⟨changed, new, sameNode.trans has, by rw [freeing]; exact nofun⟩
    · exact ⟨now, (old owner same).trans found, has, kept⟩
  · rw [nodes]
    by_cases same : other = id
    · subst same
      obtain rfl := some.inj (new.symm.trans found)
      obtain rfl := some.inj (node.symm.trans (sameNode.symm.trans has))
      exact ⟨own, fun unfreed => absurd freeing unfreed⟩
    · obtain ⟨belongs, placed⟩ :=
        linked.placed other now third ((old other same).symm.trans found) has kept
      have different : third ≠ waitNode := fun equal => by
        subst equal
        exact same (some.inj (belongs.symm.trans own))
      refine ⟨belongs, fun unfreed => (placed unfreed).imp fun pollfd there => ⟨there.1, ?_⟩⟩
      rw [queues]
      exact (mem_erase_of_ne different).mpr there.2
  · rw [queues] at there
    have different : other ≠ waitNode := fun equal => by
      subst equal
      exact (linked.nodup queue).not_mem_erase there
    obtain ⟨owner, now, belongs, found, kept⟩ :=
      linked.queued queue other (mem_of_mem_erase there)
    have apart : owner ≠ id := fun equal => by
      subst equal
      obtain ⟨again, foundAgain, has, -⟩ := linked.owned other owner belongs
      obtain rfl := some.inj (here.symm.trans foundAgain)
      exact different (some.inj (has.symm.trans node))
    exact ⟨owner, now, by rw [nodes]; exact belongs, (old owner apart).trans found, kept⟩
  · rw [queues]
    exact (linked.nodup queue).erase waitNode

theorem Linked.free
    (phase : call.phase = .free) (node : call.table.node = some waitNode) (ok : changed.Ok)
    (deleting : changed.phase = .delete) (calls : next.calls = (state.setCall id changed).calls)
    (nodes : next.nodes = update state.nodes waitNode none)
    (queues : next.queues = state.queues) : next.Linked := by
  obtain ⟨new, old⟩ := calls_of_setCall calls
  have own := (linked.placed id call waitNode here node (by rw [phase]; exact nofun)).1
  have nodeOld : ∀ other, other ≠ waitNode → next.nodes other = state.nodes other :=
    fun other different => by rw [nodes, update_of_ne different]
  refine ⟨linked.ok_of_setCall calls ok, fun other owner belongs => ?_,
    fun other now third found has kept => ?_, fun queue other there => ?_, fun queue => ?_⟩
  · have different : other ≠ waitNode := fun equal => by
      rw [nodes, equal, update_self] at belongs
      cases belongs
    obtain ⟨now, found, has, kept⟩ :=
      linked.owned other owner ((nodeOld other different).symm.trans belongs)
    have apart : owner ≠ id := fun equal => by
      subst equal
      obtain rfl := some.inj (here.symm.trans found)
      exact different (some.inj (has.symm.trans node))
    exact ⟨now, (old owner apart).trans found, has, kept⟩
  · by_cases same : other = id
    · subst same
      obtain rfl := some.inj (new.symm.trans found)
      exact absurd deleting kept
    obtain ⟨belongs, placed⟩ :=
      linked.placed other now third ((old other same).symm.trans found) has kept
    have different : third ≠ waitNode := fun equal => by
      subst equal
      exact same (some.inj (belongs.symm.trans own))
    rw [queues]
    exact ⟨(nodeOld third different).trans belongs, placed⟩
  · rw [queues] at there
    obtain ⟨owner, now, belongs, found, kept⟩ := linked.queued queue other there
    have apart : owner ≠ id := fun equal => by
      subst equal
      obtain rfl := some.inj (here.symm.trans found)
      exact kept phase
    have different : other ≠ waitNode := fun equal => by
      subst equal
      exact apart (some.inj (belongs.symm.trans own))
    exact ⟨owner, now, (nodeOld other different).trans belongs, (old owner apart).trans found, kept⟩
  · rw [queues]
    exact linked.nodup queue

theorem Linked.delete (phase : call.phase = .delete) :
    Linked { state with calls := update state.calls id none } := by
  have kept : ∀ other now, other ≠ id → state.calls other = some now →
      update state.calls id none other = some now := fun other now different found =>
    (update_of_ne different _ _).trans found
  have unowned : ∀ other owner, state.nodes other = some owner → owner ≠ id :=
    fun other owner belongs equal => by
      subst equal
      obtain ⟨now, found, -, open_⟩ := linked.owned other owner belongs
      obtain rfl := some.inj (here.symm.trans found)
      exact open_ phase
  have still : ∀ other now, update state.calls id none other = some now →
      state.calls other = some now := fun other now found => by
    by_cases same : other = id
    · rw [same, update_self] at found
      cases found
    · rwa [update_of_ne same] at found
  refine ⟨fun other now found => linked.ok other now (still other now found),
    fun other owner belongs => ?_,
    fun other now third found has open_ => linked.placed other now third (still other now found)
      has open_, fun queue other there => ?_, linked.nodup⟩
  · obtain ⟨now, found, has⟩ := linked.owned other owner belongs
    exact ⟨now, kept owner now (unowned other owner belongs) found, has⟩
  · obtain ⟨owner, now, belongs, found, open_⟩ := linked.queued queue other there
    exact ⟨owner, now, belongs, kept owner now (unowned other owner belongs) found, open_⟩

end

/-! ### Notifying -/

theorem Linked.notifyNode (event : PollEvent) (waitNode : Nat) :
    (state.notifyNode event waitNode).Linked ∧
      (state.notifyNode event waitNode).nodes = state.nodes ∧
      (state.notifyNode event waitNode).queues = state.queues := by
  unfold State.notifyNode
  cases belongs : state.nodes waitNode with
  | none => exact ⟨linked, rfl, rfl⟩
  | some id =>
    cases here : state.calls id with
    | none =>
      dsimp only
      rw [here]
      exact ⟨linked, rfl, rfl⟩
    | some call =>
      dsimp only
      rw [here]
      dsimp only
      split
      · obtain ⟨ok, alike⟩ := (linked.ok id call here).post
        exact ⟨linked.setCall here ok alike, rfl, rfl⟩
      · exact ⟨linked, rfl, rfl⟩

theorem Linked.foldl (event : PollEvent) (waitNodes : List Nat) :
    (waitNodes.foldl (State.notifyNode event) state).Linked ∧
      (waitNodes.foldl (State.notifyNode event) state).nodes = state.nodes := by
  induction waitNodes generalizing state with
  | nil => exact ⟨linked, rfl⟩
  | cons waitNode rest hypothesis =>
    obtain ⟨linkedNext, nodes, -⟩ := linked.notifyNode event waitNode
    obtain ⟨linkedLast, same⟩ := hypothesis linkedNext
    exact ⟨linkedLast, same.trans nodes⟩

end

theorem foldl_calls_of_other (event : PollEvent) (waitNodes : List Nat) (linked : state.Linked)
    (others : ∀ waitNode ∈ waitNodes, state.nodes waitNode ≠ some id) :
    (waitNodes.foldl (notifyNode event) state).calls id = state.calls id := by
  induction waitNodes generalizing state with
  | nil => rfl
  | cons waitNode rest hypothesis =>
    obtain ⟨linkedNext, nodes, -⟩ := linked.notifyNode event waitNode
    have kept : (state.notifyNode event waitNode).calls id = state.calls id := by
      have other := others waitNode mem_cons_self
      unfold State.notifyNode
      cases belongs : state.nodes waitNode with
      | none => rfl
      | some owner =>
        have different : id ≠ owner := fun equal => other (equal ▸ belongs)
        cases here : state.calls owner with
        | none =>
          dsimp only
          rw [here]
        | some call =>
          dsimp only
          rw [here]
          dsimp only
          split
          · exact setCall_other state _ different
          · rfl
    refine (hypothesis linkedNext fun later member => ?_).trans kept
    rw [nodes]
    exact others later (mem_cons_of_mem _ member)

theorem pollNotify_calls {queue : Nat} {event : PollEvent} (linked : state.Linked)
    (here : state.calls id = some call) (belongs : state.nodes waitNode = some id)
    (member : waitNode ∈ state.queues queue) (asks : event &&& call.table.event ≠ 0) :
    (state.pollNotify queue event).calls id = some call.post := by
  have only : ∀ other, state.nodes other = some id → other = waitNode := fun other owned => by
    obtain ⟨now, found, has, -⟩ := linked.owned other id owned
    obtain ⟨again, foundAgain, hasAgain, -⟩ := linked.owned waitNode id belongs
    obtain rfl := some.inj (found.symm.trans foundAgain)
    exact some.inj (has.symm.trans hasAgain)
  obtain ⟨before, after, order⟩ := append_of_mem member
  have distinct := linked.nodup queue
  rw [order, nodup_middle, nodup_cons, mem_append, not_or] at distinct
  obtain ⟨linkedBefore, nodesBefore⟩ := linked.foldl event before
  have hereBefore : (before.foldl (notifyNode event) state).calls id = some call :=
    (foldl_calls_of_other event before linked fun other there owned =>
      distinct.1.1 (only other owned ▸ there)).trans here
  have posted : ((before.foldl (notifyNode event) state).notifyNode event waitNode) =
      (before.foldl (notifyNode event) state).setCall id call.post := by
    rw [notifyNode, nodesBefore, belongs]
    dsimp only
    rw [hereBefore]
    exact if_pos (.inr asks)
  obtain ⟨ok, alike⟩ := (linkedBefore.ok id call hereBefore).post
  rw [pollNotify, order, foldl_append, foldl_cons, posted,
    foldl_calls_of_other event after (linkedBefore.setCall hereBefore ok alike), setCall_calls]
  intro other there owned
  have owned : state.nodes other = some id := nodesBefore ▸ owned
  exact distinct.1.2 (only other owned ▸ there)

/-! ### Runs -/

theorem linked_initial : initial.Linked where
  ok := fun _ _ no => absurd no.symm (some_ne_none _)
  owned := fun _ _ no => absurd no.symm (some_ne_none _)
  placed := fun _ _ _ no => absurd no.symm (some_ne_none _)
  queued := fun _ _ no => absurd no not_mem_nil
  nodup := fun _ => nodup_nil

theorem Linked.addPollWaitQueue (linked : state.Linked) (here : state.calls id = some call)
    (phase : call.phase = .add index) {granted : Option Nat}
    (careful : granted = none ∨ call.table.node = none)
    (result : state.addPollWaitQueue id call index granted = some next) : next.Linked := by
  have before : call.phase ≠ .free ∧ call.phase ≠ .delete := by
    rw [phase]
    exact ⟨nofun, nofun⟩
  have ok := linked.ok id call here
  have asks := ok.asks
  rw [phase] at asks
  obtain ⟨pollfd, found, event⟩ := asks
  have inside := (List.getElem?_eq_some_iff.mp found).1
  have onwards : index + 1 ≤ call.fds.length ∧ ∀ behind, index + 1 = behind + 1 →
      ∃ pollfd, call.fds[behind]? = some pollfd ∧ call.table.event = pollfd.asked :=
    ⟨inside, fun behind next => by
      obtain rfl := Nat.succ.inj next
      exact ⟨pollfd, found, event⟩⟩
  cases granted with
  | none =>
    obtain rfl := some.inj result
    refine linked.setCall here ⟨ok.noded, fun last => ?_, fun early => ?_, onwards,
      fun no => by cases no⟩ (.of_phase rfl rfl before ⟨nofun, nofun⟩)
    · rcases last with no | no <;> cases no
    · rcases early with no | no | no <;> cases no
  | some waitNode =>
    obtain ⟨free, result⟩ := ite_none_left_eq_some.mp result
    have fresh : state.nodes waitNode = none := by simpa using free
    rw [found] at result
    obtain rfl := some.inj result
    have none_ := careful.resolve_left (some_ne_none _)
    have okNext : Call.Ok { call with
          table := { call.table with node := some waitNode }
          phase := .query (index + 1) } := by
      refine ⟨fun _ => rfl, fun _ => rfl, fun early => ?_, onwards, fun no => by cases no⟩
      rcases early with no | no | no <;> cases no
    exact linked.add here none_ fresh (mem_of_getElem? found) okNext rfl rfl
      ⟨nofun, nofun⟩ rfl rfl rfl

theorem Linked.run {input : Input} (linked : state.Linked) (here : state.calls id = some call)
    (careful : call.careful input = true) (result : state.run id call input = some next) :
    next.Linked := by
  have ok := linked.ok id call here
  unfold State.run at result
  cases phase : call.phase with
  | query index =>
    rw [phase] at result
    obtain rfl := some.inj result
    obtain ⟨okNext, alike⟩ := ok.query phase careful
    exact linked.setCall here okNext alike
  | driver index =>
    rw [phase] at result
    obtain rfl := some.inj result
    obtain ⟨okNext, alike⟩ := ok.driver phase careful
    exact linked.setCall here okNext alike
  | add index =>
    rw [phase] at result
    rw [Call.careful, phase] at careful
    refine linked.addPollWaitQueue here phase ?_ result
    simpa using careful
  | loop =>
    rw [phase] at result
    obtain rfl := some.inj result
    obtain ⟨okNext, alike⟩ := ok.loop phase input.elapsed
    exact linked.setCall here okNext alike
  | pend =>
    rw [phase] at result
    obtain rfl := some.inj result
    obtain ⟨okNext, alike⟩ := ok.pend phase careful
    exact linked.setCall here okNext alike
  | waiting =>
    rw [phase] at result
    obtain ⟨-, result⟩ := ite_none_right_eq_some.mp result
    obtain rfl := some.inj result
    have timed := ok.early (.inr (.inr phase))
    exact linked.setCall here
      ⟨ok.noded, fun _ => ok.noded timed, fun _ => timed, trivial, fun no => by cases no⟩
      (.of_phase rfl rfl (by rw [phase]; exact ⟨nofun, nofun⟩) ⟨nofun, nofun⟩)
  | unlink =>
    rw [phase] at result
    obtain ⟨waitNode, node, rfl⟩ := map_eq_some_iff.mp result
    have some_ := ok.last (.inl phase)
    have okNext : Call.Ok { call with phase := .free } := by
      refine ⟨fun _ => some_, fun _ => some_, fun early => ?_, trivial, fun no => by cases no⟩
      rcases early with no | no | no <;> cases no
    exact linked.unlink here phase node okNext rfl rfl rfl rfl rfl
  | free =>
    rw [phase] at result
    obtain ⟨waitNode, node, rfl⟩ := map_eq_some_iff.mp result
    have some_ := ok.last (.inr phase)
    have okNext : Call.Ok { call with phase := .delete } := by
      refine ⟨fun _ => some_, fun _ => some_, fun early => ?_, trivial, fun no => by cases no⟩
      rcases early with no | no | no <;> cases no
    exact linked.free here phase node okNext rfl rfl rfl rfl
  | delete =>
    rw [phase] at result
    obtain rfl := some.inj result
    exact linked.delete here phase

theorem Linked.step (linked : state.Linked) {action : Action}
    (careful : careful state action = true) (result : step state action = some next) :
    next.Linked := by
  cases action with
  | poll id fds timeout sem =>
    obtain ⟨free, result⟩ := ite_none_left_eq_some.mp result
    have fresh : state.calls id = none := by simpa using free
    split at result
    · exact some.inj result ▸ linked
    · obtain rfl := some.inj result
      exact linked.poll fresh (.queryFds fun no => by cases no) rfl
  | run id input =>
    obtain ⟨call, here, result⟩ := bind_eq_some_iff.mp result
    rw [Poll.careful, here] at careful
    exact linked.run here careful result
  | notify queue event =>
    obtain rfl := some.inj result
    exact (linked.foldl event _).1

theorem linked_of_reached
    (reached : Reachable Poll.step (fun state action => Poll.careful state action = true)
      (· = initial) state) : state.Linked := by
  induction reached with
  | start first =>
    subst first
    exact linked_initial
  | step _ careful taken linked => exact linked.step careful taken

theorem Linked.registered (linked : state.Linked) : state.Registered where
  live := fun queue waitNode member => by
    obtain ⟨id, call, belongs, here, -⟩ := linked.queued queue waitNode member
    exact ⟨id, call, belongs, here⟩
  allocated := fun id call here ending => by
    obtain ⟨waitNode, node⟩ := isSome_iff_exists.mp ((linked.ok id call here).last ending)
    refine ⟨waitNode, node, (linked.placed id call waitNode here node ?_).1⟩
    rcases ending with phase | phase
    · rw [phase]
      exact nofun
    · rw [phase]
      exact nofun
  woken := fun id call here waiting pollfd member event asks => by
    have ok := linked.ok id call here
    have uniform_ := ok.waits waiting
    have event_ := ok.asks
    rw [waiting] at event_
    rw [uniform] at uniform_
    obtain ⟨waitNode, node⟩ :=
      isSome_iff_exists.mp (ok.noded (ok.early (.inr (.inr waiting))))
    obtain ⟨belongs, placed⟩ := linked.placed id call waitNode here node
      (by rw [waiting]; exact nofun)
    obtain ⟨other, memberOther, there⟩ := placed (by rw [waiting]; exact nofun)
    cases isLast : call.fds.getLast? with
    | none =>
      rw [isLast] at uniform_
      cases uniform_
    | some last =>
      rw [isLast] at uniform_
      have same := fun pollfd member => Bool.and_eq_true_iff.mp
        (all_eq_true.mp uniform_ pollfd member)
      have queue : other.queue = pollfd.queue :=
        (beq_iff_eq.mp (same other memberOther).1).trans
          (beq_iff_eq.mp (same pollfd member).1).symm
      have wider : event &&& call.table.event ≠ 0 := fun zero => by
        rw [event_ last isLast, ← beq_iff_eq.mp (same pollfd member).2,
          BitVec.and_or_distrib_left] at zero
        exact asks (BitVec.or_eq_zero_iff.mp zero).1
      rw [queue] at there
      have posted := pollNotify_calls linked here belongs there wider
      rw [posted, Call.post, if_pos waiting]

end State

/-- In every run of careful calls the registrations are as they are to be, whatever the drivers
answer and notify. -/
theorem registered_of_reachable (state : State)
    (reached : Reachable step (fun state action => careful state action = true) (· = initial)
      state) : state.Registered :=
  (State.linked_of_reached reached).registered

def next (event : PollEvent) (granted : Option Nat) : Action :=
  .run 0 ⟨.found event, granted, false, false⟩

/-- A call with one descriptor, which comes to wait. -/
def sample : List Action :=
  [.poll 0 [⟨256, 1, 0⟩] (-1) true, next 0 none, next 0 none, next 0 (some 100), next 0 none,
    next 0 none, next 0 none]

theorem registered_of_reachable_sample :
    ∃ state, execute step careful initial sample = some state ∧ state.Registered ∧
      (state.calls 0).map Call.phase = some .waiting := by
  refine ⟨_, rfl, registered_of_reachable _ ?_, by decide⟩
  exact Reachable.of_execute (fun _ _ holds => holds) sample (.start rfl) rfl

/-- Two descriptors are polled, and the second one ends the wait. -/
def twice : List Action :=
  [.poll 0 [⟨256, 1, 0⟩, ⟨258, 1, 1⟩] (-1) true, next 0 none, next 0 none, next 0 (some 100),
    next 0 none, next 0 none, next 0 (some 101), next 0 none, next 0 none, next 0 none,
    .notify 1 1, next 0 none, next 0 none, next 0 none, next 1 none, next 0 none, next 0 none,
    next 0 none, next 0 none]

/-- A call without a timeout comes to unlink a node that it does not have; and of two descriptors
one is left in its queue, with the address of a table that is gone. -/
theorem node_left_behind : (∃ state, execute step (fun _ _ => true) initial
        [.poll 0 [⟨256, 1, 0⟩] 0 true, next 0 none, next 0 none, next 0 none] = some state ∧
      (state.calls 0).map (fun call => (call.phase, call.table.node)) = some (.unlink, none) ∧
      ¬state.Registered) ∧
    ∃ state, execute step (fun _ _ => true) initial twice = some state ∧ state.queues 0 = [100] ∧
      state.nodes 100 = some 0 ∧ state.calls 0 = none ∧ ¬state.Registered := by
  refine ⟨⟨_, rfl, by decide, fun fine => ?_⟩, _, rfl, by decide, by decide, by decide,
    fun fine => ?_⟩
  · obtain ⟨waitNode, no, -⟩ := fine.allocated 0 _ rfl (.inl rfl)
    cases no
  · obtain ⟨id, call, belongs, here⟩ := fine.live 0 100 (by decide)
    obtain rfl : 0 = id := some.inj belongs
    cases here

end TowerSafe.Poll
