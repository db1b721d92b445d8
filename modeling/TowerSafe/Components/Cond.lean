/-
This file embeds the condition variables of `pthread_cond.c` over the event of `los_event.c`. A wait
counts itself, releases the mutex of its caller, and only then reads the event, which is one bit
that whoever reads it clears. The count is right and no signal is lost in every state exactly as
long as no deadline is past, an event is read or cleared only when no other thread relies on it, and
a write wakes the threads that its call took off the count.
-/

import TowerSafe.Library.Transition
import Mathlib

namespace TowerSafe.Cond

open Library List

/-! ### Deadlines -/

structure Timespec where
  tvSec : Int
  tvNsec : Int
  deriving DecidableEq

def osSysNsPerSecond : Nat := 1000000000

def validTimeSpec (tp : Timespec) : Bool :=
  !(decide (tp.tvNsec < 0) || decide ((osSysNsPerSecond : Int) ≤ tp.tvNsec) ||
    decide (tp.tvSec < 0))

/-- The nanoseconds of a time, as `OsGetTickTimeFromNow` computes them. -/
def Timespec.nanoseconds (tp : Timespec) : Nat :=
  (BitVec.ofInt 64 tp.tvSec * BitVec.ofNat 64 osSysNsPerSecond +
    BitVec.ofInt 64 tp.tvNsec).toNat

inductive Errno where
  | einval
  | etimedout
  deriving DecidableEq

/-- `OsGetTickTimeFromNow`, with the time of the clock. -/
def osGetTickTimeFromNow (nsPerTick : Nat) (ts now : Timespec) : Except Errno Nat :=
  if validTimeSpec ts = false then .error .einval
  else if ts.nanoseconds ≤ now.nanoseconds then .error .etimedout
  else .ok ((ts.nanoseconds - now.nanoseconds + nsPerTick - 1) % 2 ^ 64 / nsPerTick + 1)

/-! ### Waits -/

/-- How far a wait is: it has counted itself, released the mutex, cleared the event (a timed one
only), is blocked on the event, was woken and is to read the event again, or has read it in vain and
is to subtract itself. -/
inductive Phase where
  | counted
  | released
  | cleared
  | blocked
  | woken
  | failed
  deriving DecidableEq

/-- A call of `pthread_cond_wait`, or with a deadline of `pthread_cond_timedwait`. -/
structure Wait where
  id : Nat
  deadline : Option Timespec
  phase : Phase
  deriving DecidableEq

/-- The mutex is released, and the event was neither written nor waited for too long since. -/
def Wait.waiting (wait : Wait) : Bool :=
  wait.phase == .released || wait.phase == .cleared || wait.phase == .blocked

/-- The wait will now read the event for the first time. -/
def Wait.reads (wait : Wait) : Bool :=
  if wait.deadline.isSome then wait.phase == .cleared else wait.phase == .released

/-- A deadline is neither past nor too far off. Else a timed wait returns, before it has released
the mutex. -/
def inTime (nsPerTick : Nat) (now ts : Timespec) : Bool :=
  match osGetTickTimeFromNow nsPerTick ts now with
  | .error _ => false
  | .ok absTicks => decide (absTicks < 2 ^ 32 - 1)

def Wait.goesOn (nsPerTick : Nat) (now : Timespec) (wait : Wait) : Bool :=
  wait.deadline.all (inTime nsPerTick now)

/-- `OsSchedTaskWake`, of a thread that is blocked. -/
def Wait.wake (wait : Wait) : Wait :=
  if wait.phase = .blocked then { wait with phase := .woken } else wait

/-- A call of `pthread_cond_broadcast` or `pthread_cond_signal`, with the waits that it found past
the release of their mutex. -/
structure Issue where
  broadcast : Bool
  among : List Nat
  deriving DecidableEq

/-- The wait with a number has not got further than to be blocked. -/
def asleep (waits : List Wait) (id : Nat) : Bool :=
  waits.any fun wait => wait.id == id && wait.waiting

/-- Of the waits that a call found, a broadcast has reached each and a signal one. -/
def Issue.answered (waits : List Wait) (issue : Issue) : Bool :=
  if issue.broadcast then issue.among.all fun id => !asleep waits id
  else issue.among.any fun id => !asleep waits id

/-! ### Runs -/

/-- The count and the event, the waits, for every call that is between its change of the count and
its write the number it took off the count, the calls there were, and the number of the next wait.
-/
structure State where
  count : Nat
  event : Bool
  waits : List Wait
  writes : List Nat
  issues : List Issue
  next : Nat
  deriving DecidableEq

inductive Action where
  | start (deadline : Option Timespec)
  | release (wait : Wait) (now : Timespec)
  | clear (wait : Wait)
  | read (wait : Wait)
  | refuse (wait : Wait)
  | expire (wait : Wait)
  | poll (wait : Wait)
  | subtract (wait : Wait)
  | issue (broadcast : Bool)
  | write (taken : Nat)
  deriving DecidableEq

/-- A wait gets to a phase. -/
def State.move (state : State) (wait : Wait) (phase : Phase) : State :=
  { state with waits := { wait with phase := phase } :: state.waits.erase wait }

def State.leave (state : State) (wait : Wait) : State :=
  { state with waits := state.waits.erase wait }

/-- `LOS_EventRead` up to where the thread blocks, for a mask with the one bit that is written. -/
def State.eventRead (state : State) (wait : Wait) : State :=
  if state.event then { state.leave wait with event := false } else state.move wait .blocked

def State.pthreadCountSub (state : State) : State :=
  if 0 < state.count then { state with count := state.count - 1 } else state

/-- A call of `pthread_cond_broadcast` or `pthread_cond_signal` is noted, when there are waits that
have released their mutex. -/
def State.note (state : State) (broadcast : Bool) : List Issue :=
  if state.waits.any Wait.waiting then
    ⟨broadcast, (state.waits.filter Wait.waiting).map Wait.id⟩ :: state.issues
  else state.issues

/-- `pthread_cond_broadcast` and `pthread_cond_signal`, up to the write. -/
def State.issue (state : State) (broadcast : Bool) : State :=
  if 0 < state.count then
    { state with
      count := if broadcast then 0 else state.count - 1
      writes := (if broadcast then state.count else 1) :: state.writes
      issues := state.note broadcast }
  else { state with issues := state.note broadcast }

/-- `LOS_EventWrite`, by which every thread that is blocked on the event is woken. -/
def State.eventWrite (state : State) (taken : Nat) : State :=
  { state with
    event := true
    waits := state.waits.map Wait.wake
    writes := state.writes.erase taken }

section Steps

variable (nsPerTick : Nat)

def step (state : State) : Action → Option State
  | .start deadline =>
      some { state with
        count := state.count + 1
        waits := ⟨state.next, deadline, .counted⟩ :: state.waits
        next := state.next + 1 }
  | .release wait now =>
      if wait ∈ state.waits ∧ wait.phase = .counted then
        if wait.goesOn nsPerTick now then some (state.move wait .released)
        else some (state.leave wait)
      else none
  | .clear wait =>
      if wait ∈ state.waits ∧ wait.phase = .released ∧ wait.deadline.isSome then
        some { state.move wait .cleared with event := false }
      else none
  | .read wait =>
      if wait ∈ state.waits ∧ wait.reads then some (state.eventRead wait) else none
  | .refuse wait =>
      if wait ∈ state.waits ∧ wait.reads then some (state.move wait .failed) else none
  | .expire wait =>
      if wait ∈ state.waits ∧ wait.phase = .blocked ∧ wait.deadline.isSome then
        some (state.move wait .failed)
      else none
  | .poll wait =>
      if wait ∈ state.waits ∧ wait.phase = .woken then
        some { state.leave wait with event := false }
      else none
  | .subtract wait =>
      if wait ∈ state.waits ∧ wait.phase = .failed then
        some (state.leave wait).pthreadCountSub
      else none
  | .issue broadcast => some (state.issue broadcast)
  | .write taken => if taken ∈ state.writes then some (state.eventWrite taken) else none

def Initial (state : State) : Prop :=
  state = ⟨0, false, [], [], [], 0⟩

def Wait.between (wait : Wait) : Bool := wait.phase != .woken

/-- The number of waits between their increment and their wake-up. -/
def between (waits : List Wait) : Nat := waits.countP Wait.between

def blocked (waits : List Wait) : Nat := waits.countP fun wait => wait.phase == .blocked

/-- Without a write to come, every call has been answered. -/
def State.settled (state : State) (waits : List Wait) : Bool :=
  !state.writes.isEmpty || state.issues.all fun issue => issue.answered waits

/-- What is right in every state. -/
structure Correct (state : State) : Prop where
  /-- The count is the number of waits between their increment and their wake-up, less those that a
  call has taken off and not woken yet, one of them with the event set. -/
  counted : state.count ≤ between state.waits
  taken : between state.waits ≤ state.count + state.writes.sum + state.event.toNat
  /-- When nothing is written any more and the event is not set, no wait that a call found, and for
  a signal not every one, is still asleep. -/
  answered : state.event = false → state.settled state.waits = true

/-- What it takes: no deadline is past or too far off, an event that is set is read for the first
time only when there is a thread to be woken, and read again or cleared only when there is none; no
call before is then left without its answer; and a write wakes, of the threads its call took off
the count, all but at most one, and no other thread. -/
def careful (state : State) : Action → Bool
  | .release wait now => wait.goesOn nsPerTick now
  | .clear _ | .poll _ =>
      !state.event || decide (between state.waits ≤ state.count + state.writes.sum) &&
        state.settled state.waits
  | .read wait =>
      !state.event || decide (state.count < between state.waits) &&
        state.settled (state.waits.erase wait)
  | .write taken =>
      decide (state.count + blocked state.waits ≤ between state.waits) &&
        decide (between state.waits + taken ≤
          state.count + state.writes.sum + blocked state.waits + 1)
  | _ => true

end Steps

/-! ### Waits that come and go -/

section Waits

variable {waits others : List Wait} {wait : Wait} {issue : Issue}

theorem between_eq (member : wait ∈ waits) :
    between waits = between (waits.erase wait) + wait.between.toNat := by
  rw [between, (perm_cons_erase member).countP_eq, countP_cons]
  cases wait.between <;> rfl

theorem between_cons (wait : Wait) (waits : List Wait) :
    between (wait :: waits) = between waits + wait.between.toNat := by
  rw [between, countP_cons]
  cases wait.between <;> rfl

theorem Wait.between_of_ne (awake : wait.phase ≠ .woken) : wait.between = true :=
  bne_iff_ne.mpr awake

theorem between_wake (waits : List Wait) :
    between (waits.map Wait.wake) + blocked waits = between waits := by
  induction waits with
  | nil => rfl
  | cons wait waits hypothesis =>
    have head : wait.wake.between.toNat + (if wait.phase == .blocked then 1 else 0) =
        wait.between.toNat := by
      obtain ⟨id, deadline, phase⟩ := wait
      cases phase <;> rfl
    rw [map_cons, between_cons, between_cons, blocked, countP_cons, ← blocked]
    omega

theorem asleep_iff {id : Nat} :
    asleep waits id = true ↔ ∃ wait ∈ waits, wait.id = id ∧ wait.waiting = true := by
  rw [asleep, any_eq_true]
  refine exists_congr fun wait => and_congr_right fun _ => ?_
  rw [Bool.and_eq_true, beq_iff_eq]

theorem asleep_of_erase {id : Nat} (still : asleep (waits.erase wait) id = true) :
    asleep waits id = true := by
  obtain ⟨other, member, same, waiting⟩ := asleep_iff.mp still
  exact asleep_iff.mpr ⟨other, mem_of_mem_erase member, same, waiting⟩

theorem Issue.answered_mono
    (fewer : ∀ id ∈ issue.among, asleep others id = true → asleep waits id = true)
    (answered : issue.answered waits = true) : issue.answered others = true := by
  have kept : ∀ id ∈ issue.among, (!asleep waits id) = true → (!asleep others id) = true := by
    intro id member awake
    rw [Bool.not_eq_true'] at awake ⊢
    exact Bool.eq_false_iff.mpr fun still =>
      Bool.false_ne_true (awake.symm.trans (fewer id member still))
  rw [Issue.answered] at answered ⊢
  split at answered
  · next all =>
    rw [if_pos all]
    rw [all_eq_true] at answered ⊢
    exact fun id member => kept id member (answered id member)
  · next one =>
    rw [if_neg one]
    rw [any_eq_true] at answered ⊢
    obtain ⟨id, member, awake⟩ := answered
    exact ⟨id, member, kept id member awake⟩

theorem State.settled_mono (state : State) (fewer : ∀ issue ∈ state.issues, ∀ id ∈ issue.among,
      asleep others id = true → asleep waits id = true)
    (settled : state.settled waits = true) : state.settled others = true := by
  rw [State.settled, Bool.or_eq_true, all_eq_true] at settled ⊢
  exact settled.imp_right fun answered issue member =>
    Issue.answered_mono (fewer issue member) (answered issue member)

end Waits

/-! ### Numbers -/

/-- Waits have different numbers, and none of them was there before the wait, nor with a call
before it had released its mutex. -/
structure Numbered (waits : List Wait) (issues : List Issue) (next : Nat) : Prop where
  nodup : (waits.map Wait.id).Nodup
  below : ∀ wait ∈ waits, wait.id < next
  noted : ∀ issue ∈ issues, ∀ id ∈ issue.among, id < next
  counted : ∀ issue ∈ issues, ∀ id ∈ issue.among, ∀ wait ∈ waits, wait.phase = .counted →
    wait.id ≠ id

namespace Numbered

variable {waits : List Wait} {issues : List Issue} {next : Nat} {wait : Wait}

section

variable (numbered : Numbered waits issues next)
include numbered

theorem leave :
    Numbered (waits.erase wait) issues next where
  nodup := (erase_sublist.map Wait.id).nodup numbered.nodup
  below other member := numbered.below other (mem_of_mem_erase member)
  noted := numbered.noted
  counted issue noted id member other there :=
    numbered.counted issue noted id member other (mem_of_mem_erase there)

theorem move (member : wait ∈ waits) {phase : Phase}
    (further : phase ≠ .counted) :
    Numbered ({ wait with phase := phase } :: waits.erase wait) issues next where
  nodup := by
    have perm := (perm_cons_erase member).map Wait.id
    exact perm.nodup_iff.mp numbered.nodup
  below other there := by
    obtain rfl | rest := mem_cons.mp there
    · exact numbered.below wait member
    · exact numbered.below other (mem_of_mem_erase rest)
  noted := numbered.noted
  counted issue noted id among other there phase := by
    obtain rfl | rest := mem_cons.mp there
    · exact absurd phase further
    · exact numbered.counted issue noted id among other (mem_of_mem_erase rest) phase

theorem start (deadline : Option Timespec) :
    Numbered (⟨next, deadline, .counted⟩ :: waits) issues (next + 1) where
  nodup := by
    rw [map_cons, nodup_cons]
    refine ⟨fun member => ?_, numbered.nodup⟩
    obtain ⟨wait, there, same⟩ := mem_map.mp member
    exact Nat.ne_of_lt (numbered.below wait there) same
  below wait there := by
    obtain rfl | rest := mem_cons.mp there
    · exact Nat.lt_succ_self next
    · exact Nat.lt_succ_of_lt (numbered.below wait rest)
  noted issue noted id among := Nat.lt_succ_of_lt (numbered.noted issue noted id among)
  counted issue noted id among wait there phase := by
    obtain rfl | rest := mem_cons.mp there
    · exact (Nat.ne_of_lt (numbered.noted issue noted id among)).symm
    · exact numbered.counted issue noted id among wait rest phase

theorem wake :
    Numbered (waits.map Wait.wake) issues next := by
  have same : ∀ wait : Wait, wait.wake.id = wait.id := fun wait => by
    rw [Wait.wake]
    split <;> rfl
  have sameCounted : ∀ wait : Wait, wait.wake.phase = .counted → wait.phase = .counted :=
    fun wait => by
      rw [Wait.wake]
      split
      · exact fun equal => Phase.noConfusion equal
      · exact id
  refine ⟨?_, fun wait there => ?_, numbered.noted, fun issue noted id among wait there phase => ?_⟩
  · rw [map_map, show Wait.id ∘ Wait.wake = Wait.id from funext same]
    exact numbered.nodup
  · obtain ⟨wait, member, rfl⟩ := mem_map.mp there
    exact (same wait).symm ▸ numbered.below wait member
  · obtain ⟨wait, member, rfl⟩ := mem_map.mp there
    exact (same wait).symm ▸
      numbered.counted issue noted id among wait member (sameCounted wait phase)

end

theorem note {state : State} (numbered : Numbered state.waits state.issues state.next)
    (broadcast : Bool) : Numbered state.waits (state.note broadcast) state.next := by
  rw [State.note]
  split
  · refine ⟨numbered.nodup, numbered.below, fun issue noted id among => ?_,
      fun issue noted id among wait there phase => ?_⟩
    · obtain rfl | rest := mem_cons.mp noted
      · obtain ⟨wait, member, rfl⟩ := mem_map.mp among
        exact numbered.below wait (mem_of_mem_filter member)
      · exact numbered.noted issue rest id among
    · obtain rfl | rest := mem_cons.mp noted
      · obtain ⟨other, member, rfl⟩ := mem_map.mp among
        obtain ⟨member, waiting⟩ := mem_filter.mp member
        intro same
        obtain rfl := inj_on_of_nodup_map numbered.nodup there member same
        rw [Wait.waiting, phase] at waiting
        exact absurd waiting (by decide)
      · exact numbered.counted issue rest id among wait there phase
  · exact numbered

end Numbered

/-! ### Every step -/

section Steps

variable {nsPerTick : Nat} {state next : State} {wait : Wait}

/-- What is right in every state, with the numbers. -/
structure Invariant (state : State) : Prop where
  correct : Correct state
  numbered : Numbered state.waits state.issues state.next

theorem Correct.move (correct : Correct state) (member : wait ∈ state.waits) {phase : Phase}
    (awake : wait.phase ≠ .woken) (further : phase ≠ .woken)
    (known : ∀ issue ∈ state.issues, wait.id ∈ issue.among →
      Wait.waiting { wait with phase := phase } = true → wait.waiting = true) :
    Correct (state.move wait phase) := by
  have same : between (state.move wait phase).waits = between state.waits := by
    rw [between_eq member, State.move, between_cons, Wait.between_of_ne awake,
      Wait.between_of_ne further]
  refine ⟨same ▸ correct.counted, same ▸ correct.taken, fun unset => ?_⟩
  refine state.settled_mono (fun issue noted id among still => ?_) (correct.answered unset)
  obtain ⟨other, there, rfl, waiting⟩ := asleep_iff.mp still
  obtain rfl | rest := mem_cons.mp there
  · exact asleep_iff.mpr ⟨wait, member, rfl, known issue noted among waiting⟩
  · exact asleep_iff.mpr ⟨other, mem_of_mem_erase rest, rfl, waiting⟩

theorem Correct.unset (correct : Correct state)
    (free : state.event = false ∨ between state.waits ≤ state.count + state.writes.sum ∧
      state.settled state.waits = true) : Correct { state with event := false } := by
  obtain unset | ⟨taken, settled⟩ := free
  · have same : { state with event := false } = state := by
      rw [← unset]
    exact same ▸ correct
  · exact ⟨correct.counted, taken, fun _ => settled⟩

theorem free_of_careful
    (meets : (!state.event || decide (between state.waits ≤ state.count + state.writes.sum) &&
      state.settled state.waits) = true) :
    state.event = false ∨ between state.waits ≤ state.count + state.writes.sum ∧
      state.settled state.waits = true := by
  rw [Bool.or_eq_true, Bool.and_eq_true, Bool.not_eq_true', decide_eq_true_eq] at meets
  exact meets

theorem Correct.leave (correct : Correct state) (member : wait ∈ state.waits)
    (woken : wait.phase = .woken) : Correct (state.leave wait) := by
  have same : between (state.leave wait).waits = between state.waits := by
    have awake : wait.between = false := by rw [Wait.between, woken]; rfl
    rw [between_eq member, awake]
    rfl
  exact ⟨same ▸ correct.counted, same ▸ correct.taken, fun unset =>
    state.settled_mono (fun _ _ _ _ => asleep_of_erase) (correct.answered unset)⟩

theorem Correct.eventRead (correct : Correct state) (member : wait ∈ state.waits)
    (reads : wait.reads = true) (meets : careful nsPerTick state (.read wait) = true) :
    Correct (state.eventRead wait) := by
  have waiting : wait.waiting = true ∧ wait.phase ≠ .woken := by
    rw [Wait.reads] at reads
    split at reads
    · have phase := beq_iff_eq.mp reads
      rw [Wait.waiting, phase]
      exact ⟨rfl, nofun⟩
    · have phase := beq_iff_eq.mp reads
      rw [Wait.waiting, phase]
      exact ⟨rfl, nofun⟩
  rw [State.eventRead]
  split
  · next set =>
    rw [careful, set, Bool.not_true, Bool.false_or, Bool.and_eq_true, decide_eq_true_eq] at meets
    obtain ⟨due, settled⟩ := meets
    have fewer : between state.waits = between (state.waits.erase wait) + 1 := by
      rw [between_eq member, Wait.between_of_ne waiting.2]
      rfl
    have taken := correct.taken
    rw [set] at taken
    refine ⟨?_, ?_, fun _ => settled⟩
    · change state.count ≤ between (state.waits.erase wait)
      omega
    · change between (state.waits.erase wait) ≤ state.count + state.writes.sum + 0
      have one : true.toNat = 1 := rfl
      omega
  · exact correct.move member waiting.2 nofun fun _ _ _ _ => waiting.1

theorem Correct.pthreadCountSub (correct : Correct state) (member : wait ∈ state.waits)
    (failed : wait.phase = .failed) : Correct (state.leave wait).pthreadCountSub := by
  have fewer : between state.waits = between (state.waits.erase wait) + 1 := by
    have awake : wait.between = true := by rw [Wait.between, failed]; rfl
    rw [between_eq member, awake]
    rfl
  have answered : state.event = false → state.settled (state.waits.erase wait) = true :=
    fun unset =>
      state.settled_mono (fun _ _ _ _ => asleep_of_erase) (correct.answered unset)
  have counted := correct.counted
  have taken := correct.taken
  rw [State.pthreadCountSub]
  split
  · next positive =>
    change 0 < state.count at positive
    refine ⟨?_, ?_, answered⟩
    · change state.count - 1 ≤ between (state.waits.erase wait)
      omega
    · change between (state.waits.erase wait) ≤
        state.count - 1 + state.writes.sum + state.event.toNat
      omega
  · next none =>
    change ¬0 < state.count at none
    refine ⟨?_, ?_, answered⟩
    · change state.count ≤ between (state.waits.erase wait)
      omega
    · change between (state.waits.erase wait) ≤ state.count + state.writes.sum + state.event.toNat
      omega

theorem not_waiting_of_between {waits : List Wait} (none : between waits = 0) :
    waits.any Wait.waiting = false := by
  rw [any_eq_false]
  intro wait member waiting
  have woken : wait.phase = .woken := by
    have not := countP_eq_zero.mp none wait member
    rw [Wait.between, bne_iff_ne, not_not] at not
    exact not
  rw [Wait.waiting, woken] at waiting
  exact absurd waiting (by decide)

theorem Correct.issue (correct : Correct state) (broadcast : Bool) :
    Correct (state.issue broadcast) := by
  have counted := correct.counted
  have taken := correct.taken
  rw [State.issue]
  split
  · next positive =>
    refine ⟨?_, ?_, fun _ => rfl⟩
    · cases broadcast
      · change state.count - 1 ≤ between state.waits
        omega
      · exact Nat.zero_le _
    · cases broadcast
      · change between state.waits ≤ state.count - 1 + (1 :: state.writes).sum + state.event.toNat
        rw [sum_cons]
        omega
      · change between state.waits ≤ 0 + (state.count :: state.writes).sum + state.event.toNat
        rw [sum_cons]
        omega
  · next zero =>
    refine ⟨counted, taken, fun unset => ?_⟩
    have before := correct.answered unset
    rw [State.settled, State.note]
    split
    · next some_ =>
      rw [Bool.or_eq_true, Bool.not_eq_true', isEmpty_eq_false_iff]
      refine .inl fun written => ?_
      rw [written, unset, sum_nil] at taken
      have none : between state.waits = 0 := by
        have nothing : false.toNat = 0 := rfl
        omega
      rw [not_waiting_of_between none] at some_
      exact Bool.false_ne_true some_
    · exact before

theorem correct_eventWrite {taken : Nat} (member : taken ∈ state.writes)
    (meets : careful nsPerTick state (.write taken) = true) : Correct (state.eventWrite taken) := by
  rw [careful, Bool.and_eq_true, decide_eq_true_eq, decide_eq_true_eq] at meets
  have woken := between_wake state.waits
  have sum : state.writes.sum = taken + (state.writes.erase taken).sum := by
    rw [(perm_cons_erase member).sum_nat, sum_cons]
  refine ⟨?_, ?_, fun unset => Bool.noConfusion unset⟩
  · change state.count ≤ between (state.waits.map Wait.wake)
    omega
  · change between (state.waits.map Wait.wake) ≤ state.count + (state.writes.erase taken).sum + 1
    omega

theorem Wait.phase_of_reads (reads : wait.reads = true) :
    wait.phase = .cleared ∨ wait.phase = .released := by
  rw [Wait.reads] at reads
  split at reads
  · exact .inl (beq_iff_eq.mp reads)
  · exact .inr (beq_iff_eq.mp reads)

theorem Invariant.step (invariant : Invariant state) {action : Action}
    (meets : careful nsPerTick state action = true)
    (result : Cond.step nsPerTick state action = some next) : Invariant next := by
  obtain ⟨correct, numbered⟩ := invariant
  cases action with
  | start deadline =>
    obtain rfl := Option.some_inj.mp result
    refine ⟨⟨?_, ?_, fun unset => ?_⟩, numbered.start deadline⟩
    · have counted := correct.counted
      rw [between_cons]
      exact Nat.succ_le_succ counted
    · have taken := correct.taken
      change between (⟨state.next, deadline, .counted⟩ :: state.waits) ≤
        state.count + 1 + state.writes.sum + state.event.toNat
      have one : (Wait.between ⟨state.next, deadline, .counted⟩).toNat = 1 := rfl
      rw [between_cons]
      omega
    · refine state.settled_mono (fun issue noted id among still => ?_) (correct.answered unset)
      obtain ⟨other, there, rfl, waiting⟩ := asleep_iff.mp still
      obtain rfl | rest := mem_cons.mp there
      · exact Bool.noConfusion waiting
      · exact asleep_iff.mpr ⟨other, rest, rfl, waiting⟩
  | release wait now =>
    obtain ⟨⟨member, counted⟩, result⟩ := Option.ite_none_right_eq_some.mp result
    rw [careful] at meets
    rw [if_pos meets] at result
    obtain rfl := Option.some_inj.mp result
    refine ⟨correct.move member (by rw [counted]; exact Phase.noConfusion) Phase.noConfusion
      fun issue noted among _ => ?_, numbered.move member Phase.noConfusion⟩
    exact absurd rfl (numbered.counted issue noted wait.id among wait member counted)
  | clear wait =>
    obtain ⟨⟨member, released, _⟩, result⟩ := Option.ite_none_right_eq_some.mp result
    obtain rfl := Option.some_inj.mp result
    refine ⟨@Correct.move _ wait (correct.unset (free_of_careful meets)) member .cleared
      (by rw [released]; exact Phase.noConfusion) Phase.noConfusion fun _ _ _ _ => ?_,
      numbered.move member Phase.noConfusion⟩
    rw [Wait.waiting, released]
    rfl
  | read wait =>
    obtain ⟨⟨member, reads⟩, result⟩ := Option.ite_none_right_eq_some.mp result
    obtain rfl := Option.some_inj.mp result
    refine ⟨correct.eventRead member reads meets, ?_⟩
    rw [State.eventRead]
    split
    · exact numbered.leave
    · exact numbered.move member Phase.noConfusion
  | refuse wait =>
    obtain ⟨⟨member, reads⟩, result⟩ := Option.ite_none_right_eq_some.mp result
    obtain rfl := Option.some_inj.mp result
    have awake : wait.phase ≠ .woken := by
      obtain phase | phase := Wait.phase_of_reads reads
      · rw [phase]
        exact Phase.noConfusion
      · rw [phase]
        exact Phase.noConfusion
    exact ⟨correct.move member awake Phase.noConfusion fun _ _ _ waiting =>
      Bool.noConfusion waiting, numbered.move member Phase.noConfusion⟩
  | expire wait =>
    obtain ⟨⟨member, blocked, _⟩, result⟩ := Option.ite_none_right_eq_some.mp result
    obtain rfl := Option.some_inj.mp result
    exact ⟨correct.move member (by rw [blocked]; exact Phase.noConfusion) Phase.noConfusion
      fun _ _ _ waiting => Bool.noConfusion waiting, numbered.move member Phase.noConfusion⟩
  | poll wait =>
    obtain ⟨⟨member, woken⟩, result⟩ := Option.ite_none_right_eq_some.mp result
    obtain rfl := Option.some_inj.mp result
    exact ⟨(correct.unset (free_of_careful meets)).leave member woken, numbered.leave⟩
  | subtract wait =>
    obtain ⟨⟨member, failed⟩, result⟩ := Option.ite_none_right_eq_some.mp result
    obtain rfl := Option.some_inj.mp result
    refine ⟨correct.pthreadCountSub member failed, ?_⟩
    rw [State.pthreadCountSub]
    split
    · exact numbered.leave
    · exact numbered.leave
  | issue broadcast =>
    obtain rfl := Option.some_inj.mp result
    refine ⟨correct.issue broadcast, ?_⟩
    rw [State.issue]
    split
    · exact numbered.note broadcast
    · exact numbered.note broadcast
  | write taken =>
    obtain ⟨member, result⟩ := Option.ite_none_right_eq_some.mp result
    obtain rfl := Option.some_inj.mp result
    exact ⟨correct_eventWrite member meets, numbered.wake⟩

theorem Invariant.of_initial (initial : Initial state) : Invariant state := by
  obtain rfl : state = _ := initial
  exact ⟨⟨Nat.le_refl 0, Nat.le_refl 0, fun _ => rfl⟩,
    ⟨nodup_nil, forall_mem_nil _, forall_mem_nil _, forall_mem_nil _⟩⟩

end Steps

theorem initial_empty : Initial ⟨0, false, [], [], [], 0⟩ := rfl

def sampleWait (id : Nat) (timed : Bool) (phase : Phase) : Wait :=
  ⟨id, if timed then some ⟨10, 0⟩ else none, phase⟩

/-- A wait up to where its thread is blocked. -/
def sampleBlock (id : Nat) (timed : Bool) : List Action :=
  let clear := if timed then [.clear (sampleWait id timed .released)] else []
  [.start (sampleWait id timed .counted).deadline,
    .release (sampleWait id timed .counted) ⟨1, 0⟩] ++ clear ++
    [.read (sampleWait id timed (if timed then .cleared else .released))]

/-- Two waits are woken by a broadcast, one expires, and one reads what a signal has written. -/
def sampleActions : List Action :=
  sampleBlock 0 false ++ sampleBlock 1 true ++
    [.issue true, .write 2, .poll (sampleWait 0 false .woken), .poll (sampleWait 1 true .woken)] ++
    sampleBlock 2 true ++
    [.expire (sampleWait 2 true .blocked), .subtract (sampleWait 2 true .failed), .start none,
      .release (sampleWait 3 false .counted) ⟨1, 0⟩, .issue false, .write 1,
      .read (sampleWait 3 false .released)]

def sampleLast : State :=
  ⟨0, false, [], [], [⟨false, [3]⟩, ⟨true, [1, 0]⟩], 4⟩

end TowerSafe.Cond
