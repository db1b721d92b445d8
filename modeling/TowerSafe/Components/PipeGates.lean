/-
This file is about who waits on the semaphores of a pipe. A task that waits is woken by the next
call that reads or writes, as long as it began to wait while the ring was as it should be for that
or such a call was under way. Then in every state in which all calls wait, those of readers find the
ring empty and a writer open, and those of writers find it full and a reader open.
-/

import TowerSafe.Components.Pipe

namespace TowerSafe.Pipe

open Library List
open Option (ite_none_left_eq_some some_inj)

/-! ### Who waits for whom -/

def PipeRing.stuck (ring : PipeRing) : Sem → Bool
  | .readSem => ring.isEmpty
  | .writeSem => ring.isFull

def PipeDev.peers (dev : PipeDev) : Sem → Nat
  | .readSem => dev.writerCnt
  | .writeSem => dev.readerCnt

/-- A read may wait for an empty ring with a writer, a write for a full one with a reader. -/
def PipeDev.shut (dev : PipeDev) (sem : Sem) : Bool :=
  dev.stuck sem && decide (0 < dev.peers sem)

/-- A read posts the write semaphore before it unlocks the device. -/
def Phase.readPosts : Phase → Bool
  | .lock | .loop | .drain | .drainPend | .drainBlocked | .probe _ | .last => true
  | _ => false

def Phase.writePosts : Phase → Bool
  | .lock | .loop | .full | .last => true
  | _ => false

def Phase.closePosts (phase : Phase) : Sem → Bool
  | .readSem => phase == .closeWrite || phase == .closeRead
  | .writeSem => phase == .closeWrite

/-- A call will post the semaphore until all who wait on it are woken. -/
def Call.willPost (dev : PipeDev) (sem : Sem) (call : Call) : Bool :=
  match call.kind with
  | .read => sem == .writeSem && call.phase.readPosts
  | .write => sem == .readSem && call.phase.writePosts
  | .close _ => dev.peers sem == 0 && call.phase.closePosts sem

/-- A wait on the semaphore is as it should be, or will end. -/
def State.hopeful (state : State) (sem : Sem) : Bool :=
  state.dev.shut sem || state.calls.any (Call.willPost state.dev sem)

def Call.waitsOn (call : Call) (sem : Sem) : Bool :=
  call.phase == .blocked && call.kind.own == sem

/-- No call is inside a read, a write or a close, apart from those that wait. -/
def State.quiet (state : State) : Prop :=
  ∀ call ∈ state.calls, call.phase = .blocked ∨ call.phase = .returned

/-- What the tasks that wait find, when nothing else is under way. -/
structure State.Gates (state : State) : Prop where
  read : state.quiet → ∀ call ∈ state.calls, call.waitsOn .readSem = true →
    state.dev.contents = [] ∧ 0 < state.dev.writerCnt
  write : state.quiet → ∀ call ∈ state.calls, call.waitsOn .writeSem = true →
    state.dev.contents.length = state.dev.bufferSize ∧ 0 < state.dev.readerCnt

/-- A call pends on a semaphore at zero only when its wait is as it should be or will end, and the
last descriptor is closed only when no other call is under way. -/
def State.runsWell (state : State) (call : Call) : Bool :=
  match call.phase with
  | .pend => decide (0 < state.dev.semCount call.kind.own) || state.hopeful call.kind.own
  | .closeRead =>
      decide (1 < state.dev.ref) ||
        (state.calls.erase call).all fun other => other.phase == .returned
  | _ => true

/-- What it takes, with buffers that `memcpy_s` copies into. -/
def careful (state : State) : Action → Bool
  | .open_ _ => true
  | .start kind buf => short (.start kind buf)
  | .run call _ => state.runsWell call

/-! ### Calls that come and go -/

/-- Nobody is in the list of a semaphore that is not zero, and everybody who waits may hope. -/
structure Gated (dev : PipeDev) (calls : List Call) : Prop where
  idle : ∀ sem, ∀ call ∈ calls, call.blockedOn sem = true → dev.semCount sem = 0
  hope : ∀ sem, ∀ call ∈ calls, call.waitsOn sem = true →
    dev.shut sem = true ∨ ∃ other ∈ calls, other.willPost dev sem = true

theorem Call.blockedOn_of_waitsOn {call : Call} {sem : Sem} (waits : call.waitsOn sem = true) :
    call.blockedOn sem = true := by
  rw [Call.waitsOn, Bool.and_eq_true] at waits
  rw [Call.blockedOn, waits.1, waits.2]
  rfl

namespace Gated

variable {dev other : PipeDev} {calls : List Call} {call new : Call} {sem : Sem}

theorem replace (gated : Gated dev calls)
    (idle : ∀ sem, new.blockedOn sem = true → dev.semCount sem = 0)
    (waits : ∀ sem, new.waitsOn sem = true →
      dev.shut sem = true ∨ ∃ other ∈ calls, other.willPost dev sem = true)
    (kept : ∀ sem, call.willPost dev sem = true →
      new.willPost dev sem = true ∨ dev.semCount sem ≠ 0) :
    Gated dev (new :: calls.erase call) := by
  have idle' : ∀ sem, ∀ other ∈ new :: calls.erase call, other.blockedOn sem = true →
      dev.semCount sem = 0 := fun sem =>
    forall_mem_cons.mpr ⟨idle sem, fun other member =>
      gated.idle sem other (mem_of_mem_erase member)⟩
  refine ⟨idle', fun sem other member waiting => ?_⟩
  have zero := idle' sem other member (Call.blockedOn_of_waitsOn waiting)
  have before : dev.shut sem = true ∨ ∃ other ∈ calls, other.willPost dev sem = true := by
    obtain rfl | old := mem_cons.mp member
    · exact waits sem waiting
    · exact gated.hope sem other (mem_of_mem_erase old) waiting
  obtain shut | ⟨helper, there, posts⟩ := before
  · exact .inl shut
  by_cases same : helper = call
  · obtain still | posted := kept sem (same ▸ posts)
    · exact .inr ⟨new, mem_cons_self, still⟩
    · exact absurd zero posted
  · exact .inr ⟨helper, mem_cons_of_mem _ ((mem_erase_of_ne same).mpr there), posts⟩

theorem move (gated : Gated dev calls) (free : ∀ sem, new.blockedOn sem = false)
    (kept : ∀ sem, call.willPost dev sem = true →
      new.willPost dev sem = true ∨ dev.semCount sem ≠ 0) :
    Gated dev (new :: calls.erase call) := by
  refine gated.replace (fun sem blocked => ?_) (fun sem waits => ?_) kept
  · exact absurd ((free sem).symm.trans blocked) Bool.false_ne_true
  · exact absurd ((free sem).symm.trans (Call.blockedOn_of_waitsOn waits)) Bool.false_ne_true

theorem device (gated : Gated dev calls)
    (sems : ∀ sem, (∃ call ∈ calls, call.blockedOn sem = true) →
      other.semCount sem = dev.semCount sem)
    (hope : ∀ sem, (dev.shut sem = true ∨ ∃ call ∈ calls, call.willPost dev sem = true) →
      other.shut sem = true ∨ ∃ call ∈ calls, call.willPost other sem = true) :
    Gated other calls where
  idle sem call member blocked :=
    (sems sem ⟨call, member, blocked⟩).trans (gated.idle sem call member blocked)
  hope sem call member waits := hope sem (gated.hope sem call member waits)

theorem shut_setSem (dev : PipeDev) (count : Nat) (sem one : Sem) :
    (dev.setSem count sem).shut one = dev.shut one := by
  cases sem <;> cases one <;> rfl

theorem willPost_setSem (dev : PipeDev) (count : Nat) (sem one : Sem) (call : Call) :
    call.willPost (dev.setSem count sem) one = call.willPost dev one := by
  cases sem <;> rfl

theorem setSem (gated : Gated dev calls) (free : ∀ call ∈ calls, call.blockedOn sem = false)
    (count : Nat) : Gated (dev.setSem count sem) calls := by
  refine gated.device (fun one blocked => ?_) fun one hope => ?_
  · obtain ⟨call, member, blocked⟩ := blocked
    cases sem with
    | readSem =>
      cases one with
      | readSem => exact absurd ((free call member).symm.trans blocked) Bool.false_ne_true
      | writeSem => rfl
    | writeSem =>
      cases one with
      | readSem => rfl
      | writeSem => exact absurd ((free call member).symm.trans blocked) Bool.false_ne_true
  · rw [shut_setSem]
    simp only [willPost_setSem]
    exact hope

theorem free_of_ne (gated : Gated dev calls) (some_ : dev.semCount sem ≠ 0) :
    ∀ call ∈ calls, call.blockedOn sem = false := fun call member =>
  Bool.eq_false_iff.mpr fun blocked => some_ (gated.idle sem call member blocked)

end Gated

theorem Call.blockedOn_of_phase {call : Call} {phase : Phase} (awake : phase ≠ .blocked)
    (locked : phase ≠ .drainBlocked) (sem : Sem) :
    Call.blockedOn { call with phase := phase } sem = false := by
  have no : (phase == .blocked || phase == .drainBlocked) = false := by
    rw [beq_eq_false_iff_ne.mpr awake, beq_eq_false_iff_ne.mpr locked]
    rfl
  exact congrArg (· && call.kind.own == sem) no

section Kept

variable {dev : PipeDev} {call : Call} {sem : Sem} {phase old : Phase} {openFlag : OpenFlag}

theorem Call.willPost_read (kind : call.kind = .read) :
    call.willPost dev sem = (sem == .writeSem && call.phase.readPosts) := by
  rw [Call.willPost, kind]

theorem Call.willPost_write (kind : call.kind = .write) :
    call.willPost dev sem = (sem == .readSem && call.phase.writePosts) := by
  rw [Call.willPost, kind]

theorem Call.willPost_close (kind : call.kind = .close openFlag) :
    call.willPost dev sem = (dev.peers sem == 0 && call.phase.closePosts sem) := by
  rw [Call.willPost, kind]

theorem Call.kept_of_read (kind : call.kind = .read) (before : call.phase = old)
    (kept : old.readPosts = true → phase.readPosts = true ∨ dev.writeSem ≠ 0) (sem : Sem)
    (posts : call.willPost dev sem = true) :
    Call.willPost dev sem { call with phase := phase } = true ∨ dev.semCount sem ≠ 0 := by
  rw [Call.willPost_read kind, before, Bool.and_eq_true, beq_iff_eq] at posts
  obtain ⟨rfl, posts⟩ := posts
  have after := @Call.willPost_read dev { call with phase := phase } .writeSem kind
  rw [after, beq_self_eq_true, Bool.true_and]
  exact kept posts

theorem Call.kept_of_write (kind : call.kind = .write) (before : call.phase = old)
    (kept : old.writePosts = true → phase.writePosts = true ∨ dev.readSem ≠ 0) (sem : Sem)
    (posts : call.willPost dev sem = true) :
    Call.willPost dev sem { call with phase := phase } = true ∨ dev.semCount sem ≠ 0 := by
  rw [Call.willPost_write kind, before, Bool.and_eq_true, beq_iff_eq] at posts
  obtain ⟨rfl, posts⟩ := posts
  have after := @Call.willPost_write dev { call with phase := phase } .readSem kind
  rw [after]
  exact kept posts

theorem Call.kept_of_close (kind : call.kind = .close openFlag) (before : call.phase = old)
    (kept : ∀ sem, old.closePosts sem = true →
      phase.closePosts sem = true ∨ (dev.peers sem = 0 → dev.semCount sem ≠ 0)) (sem : Sem)
    (posts : call.willPost dev sem = true) :
    Call.willPost dev sem { call with phase := phase } = true ∨ dev.semCount sem ≠ 0 := by
  rw [Call.willPost_close kind, before, Bool.and_eq_true, beq_iff_eq] at posts
  obtain ⟨alone, posts⟩ := posts
  have after := @Call.willPost_close dev { call with phase := phase } sem openFlag kind
  rw [after, alone]
  exact (kept sem posts).imp_right fun posted => posted alone

theorem Call.kept_of (before : call.phase = old)
    (read : old.readPosts = true → phase.readPosts = true ∨ dev.writeSem ≠ 0)
    (write : old.writePosts = true → phase.writePosts = true ∨ dev.readSem ≠ 0)
    (close : ∀ sem, old.closePosts sem = true →
      phase.closePosts sem = true ∨ (dev.peers sem = 0 → dev.semCount sem ≠ 0)) (sem : Sem)
    (posts : call.willPost dev sem = true) :
    Call.willPost dev sem { call with phase := phase } = true ∨ dev.semCount sem ≠ 0 := by
  cases kind : call.kind with
  | read => exact Call.kept_of_read kind before read sem posts
  | write => exact Call.kept_of_write kind before write sem posts
  | close openFlag => exact Call.kept_of_close kind before close sem posts

/-- A phase without a post of a close. -/
theorem Phase.closePosts_iff (sem : Sem) : phase.closePosts sem = true ↔
      phase = .closeWrite ∨ phase = .closeRead ∧ sem = .readSem := by
  cases sem with
  | readSem =>
    rw [Phase.closePosts, Bool.or_eq_true, beq_iff_eq, beq_iff_eq, eq_self, and_true]
  | writeSem =>
    rw [Phase.closePosts, beq_iff_eq]
    exact ⟨.inl, fun either => either.resolve_right fun no => Sem.noConfusion no.2⟩

def Phase.transfers (phase : Phase) : Prop := phase ≠ .closeWrite ∧ phase ≠ .closeRead

theorem Call.kept_of_transfers (before : call.phase = old) (transfers : old.transfers)
    (read : old.readPosts = true → phase.readPosts = true ∨ dev.writeSem ≠ 0)
    (write : old.writePosts = true → phase.writePosts = true ∨ dev.readSem ≠ 0) (sem : Sem)
    (posts : call.willPost dev sem = true) :
    Call.willPost dev sem { call with phase := phase } = true ∨ dev.semCount sem ≠ 0 := by
  refine Call.kept_of before read write (fun sem posts => ?_) sem posts
  obtain write | ⟨read, _⟩ := (Phase.closePosts_iff sem).mp posts
  · exact absurd write transfers.1
  · exact absurd read transfers.2

end Kept

/-! ### Every step -/

section Steps

variable {state next after : State} {call : Call} {woken : Option Call} {sem : Sem}

def State.Gated (state : State) : Prop :=
  Pipe.Gated state.dev state.calls

theorem State.Gated.move (gated : state.Gated) {phase : Phase} (awake : phase ≠ .blocked)
    (locked : phase ≠ .drainBlocked) (kept : ∀ sem, call.willPost state.dev sem = true →
      Call.willPost state.dev sem { call with phase := phase } = true ∨
        state.dev.semCount sem ≠ 0) : (state.move call phase).Gated :=
  Pipe.Gated.move gated (Call.blockedOn_of_phase awake locked) kept

theorem State.Gated.losSemPost (gated : state.Gated)
    (result : state.losSemPost sem woken = some next) : next.Gated := by
  cases woken with
  | some other =>
    obtain ⟨⟨_, blocked⟩, result⟩ := Option.ite_none_right_eq_some.mp result
    obtain rfl := some_inj.mp result
    rw [Call.blockedOn, Bool.and_eq_true, Bool.or_eq_true, beq_iff_eq, beq_iff_eq] at blocked
    obtain waits | drains := blocked.1
    · rw [waits]
      exact gated.move nofun nofun (Call.kept_of_transfers waits ⟨nofun, nofun⟩ nofun nofun)
    · rw [drains]
      exact gated.move nofun nofun (Call.kept_of_transfers drains
        ⟨nofun, nofun⟩ (fun _ => .inl rfl) nofun)
  | none =>
    obtain ⟨none, result⟩ := ite_none_left_eq_some.mp result
    obtain rfl := some_inj.mp result
    rw [Bool.not_eq_true, any_eq_false] at none
    exact Pipe.Gated.setSem gated (fun call member => Bool.eq_false_iff.mpr (none call member)) _

theorem State.Gated.pipeRwPost (gated : state.Gated)
    (result : state.pipeRwPost sem woken after = some next)
    (posted : state.dev.semCount sem ≠ 0 → after.Gated) : next.Gated := by
  rw [State.pipeRwPost] at result
  split at result
  · exact gated.losSemPost result
  · next some_ =>
    obtain rfl := some_inj.mp result
    exact posted some_

theorem State.Gated.losSemPend (gated : state.Gated) {go wait : Phase} (awake : go ≠ .blocked)
    (locked : go ≠ .drainBlocked) (goes : ∀ sem, call.willPost state.dev sem = true →
      Call.willPost state.dev sem { call with phase := go } = true ∨ state.dev.semCount sem ≠ 0)
    (stays : ∀ sem, call.willPost state.dev sem = true →
      Call.willPost state.dev sem { call with phase := wait } = true ∨ state.dev.semCount sem ≠ 0)
    (hope : wait = .blocked → state.dev.semCount call.kind.own = 0 →
      state.hopeful call.kind.own = true) : (state.losSemPend call go wait).Gated := by
  rw [State.losSemPend]
  split
  · next some_ =>
    refine Pipe.Gated.setSem (gated.move awake locked goes) (forall_mem_cons.mpr
      ⟨Call.blockedOn_of_phase awake locked _, fun other member => ?_⟩) _
    exact Pipe.Gated.free_of_ne gated (Nat.ne_of_gt some_) other (mem_of_mem_erase member)
  · next none =>
    have zero : state.dev.semCount call.kind.own = 0 := Nat.eq_zero_of_not_pos none
    refine Pipe.Gated.replace gated (fun sem blocked => ?_) (fun sem waits => ?_) stays
    · rw [Call.blockedOn, Bool.and_eq_true, beq_iff_eq] at blocked
      exact blocked.2 ▸ zero
    · rw [Call.waitsOn, Bool.and_eq_true, beq_iff_eq, beq_iff_eq] at waits
      have hopeful := hope waits.1 zero
      rw [State.hopeful, Bool.or_eq_true, any_eq_true] at hopeful
      exact waits.2 ▸ hopeful

theorem Call.willPost_mono {dev other : PipeDev}
    (alone : dev.peers sem = 0 → other.peers sem = 0) (posts : call.willPost dev sem = true) :
    call.willPost other sem = true := by
  rw [Call.willPost] at posts ⊢
  split at posts
  · exact posts
  · exact posts
  · rw [Bool.and_eq_true, beq_iff_eq] at posts ⊢
    exact ⟨alone posts.1, posts.2⟩

theorem peers_ring (dev : PipeDev) (ring : PipeRing) (sem : Sem) :
    PipeDev.peers { dev with toPipeRing := ring } sem = dev.peers sem := by
  cases sem <;> rfl

theorem Gated.moved {dev : PipeDev} {calls : List Call} {new : Call} {ring : PipeRing}
    (gated : Gated dev calls) (same : new.kind = call.kind) (phase : call.phase = .loop)
    (looping : new.phase = .loop)
    (posts : ∀ sem, sem ≠ call.kind.own → call.willPost dev sem = true)
    (stuck : dev.stuck call.kind.own = false) :
    Gated { dev with toPipeRing := ring } (new :: calls.erase call) := by
  have free : ∀ sem, new.blockedOn sem = false := by
    intro sem
    rw [Call.blockedOn, looping]
    rfl
  have kept : ∀ sem, call.willPost dev sem = true → new.willPost dev sem = true := by
    intro sem before
    rw [Call.willPost, same, looping, ← phase]
    exact before
  refine (gated.move free fun sem before => .inl (kept sem before)).device
    (fun sem _ => by cases sem <;> rfl) fun sem hope => ?_
  by_cases own : sem = call.kind.own
  · obtain shut | ⟨helper, member, before⟩ := hope
    · rw [PipeDev.shut, own, stuck] at shut
      exact Bool.noConfusion shut
    · exact .inr ⟨helper, member, Call.willPost_mono (peers_ring ..).trans before⟩
  · exact .inr ⟨new, mem_cons_self,
      Call.willPost_mono (peers_ring ..).trans (kept sem (posts sem own))⟩

section

variable (gated : state.Gated)
include gated

theorem State.Gated.readLoop (kind : call.kind = .read)
    (phase : call.phase = .loop) : (state.readLoop call).Gated := by
  rw [State.readLoop]
  split
  · dsimp only
    split
    · exact gated.move (by decide) (by decide) (Call.kept_of_read kind phase fun _ => .inl rfl)
    next some_ =>
    refine Gated.moved gated rfl phase phase (fun sem other => ?_) ?_
    · rw [kind] at other
      cases sem with
      | readSem => exact absurd rfl other
      | writeSem =>
        rw [Call.willPost_read kind, phase]
        rfl
    · rw [kind]
      refine Bool.eq_false_iff.mpr fun empty => some_ ?_
      rw [PipeRing.pipeRingbufferRead, PipeRing.readable_eq_none empty]
  · exact gated.move (by decide) (by decide) (Call.kept_of_read kind phase fun _ => .inl rfl)

theorem State.Gated.writeLoop (kind : call.kind = .write)
    (phase : call.phase = .loop) : (state.writeLoop call).Gated := by
  rw [State.writeLoop]
  split
  · dsimp only
    split
    · exact gated.move (by decide) (by decide) (Call.kept_of_write kind phase fun _ => .inl rfl)
    next some_ =>
    refine Gated.moved gated rfl phase phase (fun sem other => ?_) ?_
    · rw [kind] at other
      cases sem with
      | readSem =>
        rw [Call.willPost_write kind, phase]
        rfl
      | writeSem => exact absurd rfl other
    · rw [kind]
      refine Bool.eq_false_iff.mpr fun full => some_ ?_
      rw [PipeRing.pipeRingbufferWrite, PipeRing.writable_eq_none full]
  · exact gated.move (by decide) (by decide) (Call.kept_of_write kind phase fun _ => .inl rfl)

theorem State.Gated.closeDev {openFlag : OpenFlag}
    (kind : call.kind = .close openFlag) (phase : call.phase = .lock) :
    State.Gated { state.move call .closeWrite with dev := State.closeDev state.dev openFlag } := by
  have moved : (state.move call .closeWrite).Gated := by
    refine gated.move Phase.noConfusion Phase.noConfusion
      (Call.kept_of_close kind phase fun sem posts => ?_)
    cases sem <;> exact Bool.noConfusion posts
  have fewer : ∀ sem, (State.closeDev state.dev openFlag).peers sem ≤ state.dev.peers sem := by
    intro sem
    cases openFlag <;> cases sem
    · exact Nat.le_refl _
    · exact Nat.sub_le ..
    · exact Nat.sub_le ..
    · exact Nat.le_refl _
  refine Pipe.Gated.device moved (fun sem _ => by cases openFlag <;> cases sem <;> rfl)
    fun sem hope => ?_
  obtain shut | ⟨helper, member, posts⟩ := hope
  · by_cases open_ : 0 < (State.closeDev state.dev openFlag).peers sem
    · refine .inl ?_
      rw [PipeDev.shut, Bool.and_eq_true] at shut
      rw [PipeDev.shut, decide_eq_true open_, Bool.and_true]
      cases openFlag <;> exact shut.1
    · refine .inr ⟨{ call with phase := .closeWrite }, mem_cons_self, ?_⟩
      have posts := @Call.willPost_close (State.closeDev state.dev openFlag)
        { call with phase := .closeWrite } sem openFlag kind
      rw [Nat.eq_zero_of_not_pos open_] at posts
      exact posts.trans (by cases sem <;> rfl)
  · refine .inr ⟨helper, member, Call.willPost_mono (fun alone => ?_) posts⟩
    exact Nat.le_zero.mp (alone ▸ fewer sem)

theorem State.Gated.drain (phase : call.phase = .drain) {next : Phase}
    (awake : next ≠ .blocked) (locked : next ≠ .drainBlocked)
    (posts : call.kind = .read → next.readPosts = true) : (state.move call next).Gated := by
  refine gated.move awake locked fun sem before => ?_
  cases kind : call.kind with
  | read => exact Call.kept_of_read kind phase (fun _ => .inl (posts kind)) sem before
  | write => exact Call.kept_of_write kind phase Bool.noConfusion sem before
  | close openFlag =>
    refine Call.kept_of_close kind phase (fun sem posts => ?_) sem before
    cases sem <;> exact Bool.noConfusion posts

theorem State.Gated.probed {num : Nat} (phase : call.phase = .probe num)
    (posted : state.dev.writeSem ≠ 0) {next : Phase} (awake : next ≠ .blocked)
    (locked : next ≠ .drainBlocked) : (state.move call next).Gated :=
  gated.move awake locked (Call.kept_of_transfers phase ⟨nofun, nofun⟩ (fun _ => .inr posted) nofun)

theorem State.Gated.last (phase : call.phase = .last)
    (posted : state.dev.semCount call.kind.other ≠ 0) : (state.move call .returned).Gated := by
  refine gated.move Phase.noConfusion Phase.noConfusion fun sem before => ?_
  cases kind : call.kind with
  | read =>
    rw [kind] at posted
    exact Call.kept_of_read kind phase (fun _ => .inr posted) sem before
  | write =>
    rw [kind] at posted
    exact Call.kept_of_write kind phase (fun _ => .inr posted) sem before
  | close openFlag =>
    refine Call.kept_of_close kind phase (fun sem posts => ?_) sem before
    cases sem <;> exact Bool.noConfusion posts

theorem State.Gated.closeWrite (phase : call.phase = .closeWrite)
    (posted : state.dev.readerCnt = 0 → state.dev.writeSem ≠ 0) :
    (state.move call .closeRead).Gated := by
  refine gated.move nofun nofun (Call.kept_of phase nofun nofun fun sem _ => ?_)
  cases sem with
  | readSem => exact .inl rfl
  | writeSem => exact .inr posted

theorem State.Gated.closeRead (phase : call.phase = .closeRead)
    (posted : state.dev.writerCnt = 0 → state.dev.readSem ≠ 0) :
    State.Gated { state.move call .returned with
      dev := { state.dev with ref := state.dev.ref - 1 } } := by
  have returned : (state.move call .returned).Gated := by
    refine gated.move Phase.noConfusion Phase.noConfusion
      (Call.kept_of phase Bool.noConfusion Bool.noConfusion fun sem before => ?_)
    cases sem with
    | readSem => exact .inr posted
    | writeSem => exact Bool.noConfusion before
  exact Pipe.Gated.device returned (fun sem _ => by cases sem <;> rfl) fun sem hope => by
    cases sem <;> exact hope

theorem State.Gated.run (hope : call.phase = .pend → state.dev.semCount call.kind.own = 0 →
      state.hopeful call.kind.own = true)
    (result : state.run call woken = some next) : next.Gated := by
  rw [State.run] at result
  split at result
  · next phase =>
    obtain ⟨_, result⟩ := ite_none_left_eq_some.mp result
    obtain rfl := some_inj.mp result
    have kept : ∀ next : Phase, ∀ sem, call.willPost state.dev sem = true →
        Call.willPost state.dev sem { call with phase := next } = true ∨
          state.dev.semCount sem ≠ 0 := fun next =>
      Call.kept_of_transfers phase ⟨by decide, by decide⟩ Bool.noConfusion Bool.noConfusion
    split
    · exact gated.move (by decide) (by decide) (kept .pend)
    · exact gated.move (by decide) (by decide) (kept .loop)
  · next phase =>
    obtain ⟨_, result⟩ := ite_none_left_eq_some.mp result
    split at result
    · next openFlag kind =>
      obtain rfl := some_inj.mp result
      exact gated.closeDev kind phase
    · obtain rfl := some_inj.mp result
      exact gated.move (by decide) (by decide) (Call.kept_of_transfers phase
        ⟨by decide, by decide⟩ (fun _ => .inl rfl) fun _ => .inl rfl)
  · next phase =>
    split at result
    · next kind =>
      obtain rfl := some_inj.mp result
      exact gated.readLoop kind phase
    · next kind =>
      obtain rfl := some_inj.mp result
      exact gated.writeLoop kind phase
    · exact absurd result (by simp)
  · next phase =>
    exact gated.pipeRwPost result fun posted => gated.move (by decide) (by decide)
      (Call.kept_of_transfers phase ⟨by decide, by decide⟩ Bool.noConfusion fun _ => .inr posted)
  · next phase =>
    split at result
    · obtain rfl := some_inj.mp result
      exact gated.drain phase (by decide) (by decide) fun _ => rfl
    obtain rfl := some_inj.mp result
    split
    · exact gated.drain phase (by decide) (by decide) fun _ => rfl
    · next other =>
      exact gated.drain phase (by decide) (by decide) fun kind => absurd kind other
  · next phase =>
    obtain rfl := some_inj.mp result
    have kept : ∀ next : Phase, next.readPosts = true → ∀ sem, call.willPost state.dev sem = true →
          Call.willPost state.dev sem { call with phase := next } = true ∨
            state.dev.semCount sem ≠ 0 := fun next posts =>
      Call.kept_of_transfers phase ⟨by decide, by decide⟩ (fun _ => .inl posts) Bool.noConfusion
    exact gated.losSemPend (by decide) (by decide) (kept .drain rfl) (kept .drainBlocked rfl)
      Phase.noConfusion
  · next num phase =>
    have moved : (state.move call (.probe (num + 1))).Gated :=
      gated.move Phase.noConfusion Phase.noConfusion (Call.kept_of_transfers phase
        ⟨Phase.noConfusion, Phase.noConfusion⟩ (fun _ => .inl rfl) Bool.noConfusion)
    split at result
    · exact moved.losSemPost result
    next posted =>
    obtain rfl := some_inj.mp result
    split
    · exact gated.probed phase posted (by decide) (by decide)
    · exact gated.probed phase posted (by decide) (by decide)
  · next phase =>
    obtain rfl := some_inj.mp result
    have kept : ∀ next : Phase, ∀ sem, call.willPost state.dev sem = true →
        Call.willPost state.dev sem { call with phase := next } = true ∨
          state.dev.semCount sem ≠ 0 := fun next =>
      Call.kept_of_transfers phase ⟨by decide, by decide⟩ Bool.noConfusion Bool.noConfusion
    exact gated.losSemPend (by decide) (by decide) (kept .lock) (kept .blocked) fun _ => hope phase
  · next phase => exact gated.pipeRwPost result (gated.last phase)
  · next phase =>
    split at result
    · exact gated.pipeRwPost result fun posted => gated.closeWrite phase fun _ => posted
    · next open_ =>
      obtain rfl := some_inj.mp result
      exact gated.closeWrite phase fun alone => absurd alone open_
  · next phase =>
    split at result
    · exact gated.pipeRwPost result fun posted => gated.closeRead phase fun _ => posted
    · next open_ =>
      obtain rfl := some_inj.mp result
      exact gated.closeRead phase fun alone => absurd alone open_
  · exact absurd result (by simp)
  · exact absurd result (by simp)
  · exact absurd result (by simp)

end

theorem Gated.cons {dev : PipeDev} {calls : List Call} {new : Call} (gated : Gated dev calls)
    (free : ∀ sem, new.blockedOn sem = false) : Gated dev (new :: calls) where
  idle sem := forall_mem_cons.mpr ⟨fun blocked =>
    absurd ((free sem).symm.trans blocked) Bool.false_ne_true, gated.idle sem⟩
  hope sem := by
    refine forall_mem_cons.mpr ⟨fun waits => ?_, fun other member waits => ?_⟩
    · exact absurd ((free sem).symm.trans (Call.blockedOn_of_waitsOn waits)) Bool.false_ne_true
    · exact (gated.hope sem other member waits).imp_right fun ⟨helper, there, posts⟩ =>
        ⟨helper, mem_cons_of_mem _ there, posts⟩

theorem State.Gated.open_ (gated : state.Gated) (free : ¬state.held = true) (openFlag : OpenFlag) :
    (state.open_ openFlag).Gated := by
  have more : ∀ sem, state.dev.peers sem ≤ (state.open_ openFlag).dev.peers sem := by
    intro sem
    cases openFlag <;> cases sem
    · exact Nat.le_refl _
    · exact Nat.le_succ _
    · exact Nat.le_succ _
    · exact Nat.le_refl _
  have calls : (state.open_ openFlag).calls = state.calls := by cases openFlag <;> rfl
  rw [State.Gated, calls]
  refine Pipe.Gated.device gated (fun sem _ => by cases openFlag <;> cases sem <;> rfl)
    fun sem hope => hope.imp (fun shut => ?_) fun ⟨helper, member, posts⟩ =>
      ⟨helper, member, ?_⟩
  · rw [PipeDev.shut, Bool.and_eq_true, decide_eq_true_eq] at shut
    rw [PipeDev.shut, decide_eq_true (Nat.lt_of_lt_of_le shut.2 (more sem)), Bool.and_true]
    cases openFlag <;> exact shut.1
  · cases kind : helper.kind with
    | read => rwa [Call.willPost_read kind] at posts ⊢
    | write => rwa [Call.willPost_write kind] at posts ⊢
    | close closing =>
      rw [Call.willPost_close kind, Bool.and_eq_true] at posts
      refine absurd (any_eq_true.mpr ⟨helper, member, ?_⟩) free
      obtain phase | ⟨phase, _⟩ := (Phase.closePosts_iff sem).mp posts.2
      · rw [phase]
        rfl
      · rw [phase]
        rfl

theorem State.Gated.step (gated : state.Gated) {action : Action}
    (meets : careful state action = true) (result : Pipe.step state action = some next) :
    next.Gated := by
  cases action with
  | open_ openFlag =>
    obtain ⟨closed, result⟩ := ite_none_left_eq_some.mp result
    obtain rfl := some_inj.mp result
    exact gated.open_ (fun held => closed (.inr held)) openFlag
  | start kind buf =>
    obtain ⟨_, result⟩ := Option.ite_none_right_eq_some.mp result
    obtain rfl := some_inj.mp result
    refine Gated.cons gated fun sem => ?_
    split <;> rfl
  | run call woken =>
    obtain ⟨_, result⟩ := ite_none_left_eq_some.mp result
    obtain ⟨_, result⟩ := Option.ite_none_right_eq_some.mp result
    refine gated.run (fun phase zero => ?_) result
    rw [careful, State.runsWell, phase] at meets
    rw [zero, Bool.or_eq_true] at meets
    exact meets.resolve_left (by decide)

theorem State.Gated.of_initial (initial : Initial state) : state.Gated := by
  obtain ⟨_, _, _, _, _, rfl⟩ := initial
  exact ⟨fun _ => forall_mem_nil _, fun _ => forall_mem_nil _⟩

theorem State.Gated.shut_of_quiet (gated : state.Gated) (quiet : state.quiet)
    (member : call ∈ state.calls) (waits : call.waitsOn sem = true) :
    state.dev.shut sem = true := by
  obtain shut | ⟨helper, there, posts⟩ := gated.hope sem call member waits
  · exact shut
  have idle : ∀ phase : Phase, phase = .blocked ∨ phase = .returned →
      phase.readPosts = false ∧ phase.writePosts = false ∧ phase.closePosts sem = false := by
    rintro phase (rfl | rfl)
    · cases sem <;> exact ⟨rfl, rfl, rfl⟩
    · cases sem <;> exact ⟨rfl, rfl, rfl⟩
  obtain ⟨read, write, close⟩ := idle helper.phase (quiet helper there)
  rw [Call.willPost, read, write, close, Bool.and_false, Bool.and_false, Bool.and_false] at posts
  split at posts <;> exact Bool.noConfusion posts

theorem State.Gated.gates (gated : state.Gated) (streams : state.Streams) : state.Gates where
  read quiet call member waits := by
    have shut := gated.shut_of_quiet quiet member waits
    rw [PipeDev.shut, Bool.and_eq_true, decide_eq_true_eq] at shut
    exact ⟨streams.valid.isEmpty_iff.mp shut.1, shut.2⟩
  write quiet call member waits := by
    have shut := gated.shut_of_quiet quiet member waits
    rw [PipeDev.shut, Bool.and_eq_true, decide_eq_true_eq] at shut
    exact ⟨streams.valid.isFull_iff.mp shut.1, shut.2⟩

end Steps

/-- In every run with buffers that are not too long, what is read is what was written, in order; and
in every run whose steps are careful, nobody is left waiting. -/
theorem stream_and_gates_of_reachable (state : State) :
    (Reachable step (fun _ action => short action = true) Initial state → state.Stream) ∧
      (Reachable step (fun state action => careful state action = true) Initial state →
        state.Gates) := by
  refine ⟨fun reached => (State.Streams.of_reachable reached).stream, fun reached => ?_⟩
  have gated : state.Gated :=
    @Reachable.invariant _ _ _ _ _ state State.Gated (fun _ => State.Gated.of_initial)
      (fun _ _ _ _ gated meets result => gated.step meets result) reached
  refine gated.gates (State.Streams.of_reachable (reached.mono fun state action meets => ?_))
  cases action with
  | open_ openFlag => rfl
  | start kind buf => exact meets
  | run call woken => rfl

/-- A pipe with a reader and a writer, that has been read and written up to a place. -/
def sampleState (bytes : Bytes) (writeSem readIndex : Nat) (calls : List Call)
    (entered left : List (Nat × BitVec 8)) (next : Nat) : State :=
  ⟨⟨⟨bytes ++ List.replicate (pipeDevBufSize - bytes.length) 0, pipeDevBufSize, readIndex,
    bytes.length, false⟩, 0, writeSem, 1, 1, 2⟩, calls, entered, left, next, 1, 1⟩

theorem initial_sample : Initial (sampleState [] 0 0 [] [] [] 0) :=
  ⟨List.replicate pipeDevBufSize 0, 1, 1, length_replicate, by decide, rfl⟩

def sampleCall (id : Nat) (kind : Kind) (buf : Bytes) (done : Nat) (phase : Phase) : Call :=
  ⟨⟨id, kind, buf, done⟩, phase⟩

/-- A read or a write does a step with which it wakes nobody. -/
def sampleRun (id : Nat) (kind : Kind) (buf : Bytes) (done : Nat) (phase : Phase) : Action :=
  .run (sampleCall id kind buf done phase) none

/-- A read waits, a write wakes it, the read returns what there is, and another read waits. -/
def sampleActions : List Action :=
  [.start .read [0, 0, 0, 0], sampleRun 0 .read [0, 0, 0, 0] 0 .check,
    sampleRun 0 .read [0, 0, 0, 0] 0 .pend, .start .write [1, 2, 3],
    sampleRun 1 .write [1, 2, 3] 0 .lock, sampleRun 1 .write [1, 2, 3] 0 .loop,
    sampleRun 1 .write [1, 2, 3] 3 .loop,
    .run (sampleCall 1 .write [1, 2, 3] 3 .last)
      (some (sampleCall 0 .read [0, 0, 0, 0] 0 .blocked)),
    sampleRun 1 .write [1, 2, 3] 3 .last, sampleRun 1 .write [1, 2, 3] 3 .last,
    sampleRun 0 .read [0, 0, 0, 0] 0 .lock, sampleRun 0 .read [0, 0, 0, 0] 0 .loop,
    sampleRun 0 .read [1, 2, 3, 0] 3 .loop, sampleRun 0 .read [1, 2, 3, 0] 3 .drain,
    sampleRun 0 .read [1, 2, 3, 0] 3 .drainPend, sampleRun 0 .read [1, 2, 3, 0] 3 .drain,
    sampleRun 0 .read [1, 2, 3, 0] 3 (.probe 0), sampleRun 0 .read [1, 2, 3, 0] 3 (.probe 1),
    .start .read [0], sampleRun 2 .read [0] 0 .check, sampleRun 2 .read [0] 0 .pend]

def sampleLast : State :=
  sampleState [1, 2, 3] 1 3
    [sampleCall 2 .read [0] 0 .blocked, sampleCall 0 .read [1, 2, 3, 0] 3 .returned,
      sampleCall 1 .write [1, 2, 3] 3 .returned]
    [(1, 1), (1, 2), (1, 3)] [(0, 1), (0, 2), (0, 3)] 3

theorem stream_and_gates_of_reachable_sample : sampleLast.Stream ∧ sampleLast.Gates :=
  have copied : execute step (fun _ action => short action) (sampleState [] 0 0 [] [] [] 0)
      sampleActions = some sampleLast := by
    decide +kernel
  have waited : execute step careful (sampleState [] 0 0 [] [] [] 0) sampleActions =
      some sampleLast := by
    decide +kernel
  ⟨(stream_and_gates_of_reachable sampleLast).1
      (.of_execute (fun _ _ meets => meets) _ (.start initial_sample) copied),
    (stream_and_gates_of_reachable sampleLast).2
      (.of_execute (fun _ _ meets => meets) _ (.start initial_sample) waited)⟩

/-- Two reads find the ring empty, and a write posts once for both. The first one takes a byte, and
the second one waits for ever beside the other byte. -/
theorem reader_left_waiting :
    ∃ state, Reachable step (fun _ _ => True) Initial state ∧ ¬state.Gates := by
  have result : execute step (fun _ _ => true) (sampleState [] 0 0 [] [] [] 0)
      [.start .read [0], sampleRun 0 .read [0] 0 .check, .start .read [0],
        sampleRun 1 .read [0] 0 .check, .start .write [1, 2], sampleRun 2 .write [1, 2] 0 .lock,
        sampleRun 2 .write [1, 2] 0 .loop, sampleRun 2 .write [1, 2] 2 .loop,
        sampleRun 2 .write [1, 2] 2 .last, sampleRun 2 .write [1, 2] 2 .last,
        sampleRun 0 .read [0] 0 .pend, sampleRun 0 .read [0] 0 .lock,
        sampleRun 0 .read [0] 0 .loop, sampleRun 0 .read [1] 1 .loop,
        sampleRun 0 .read [1] 1 .last, sampleRun 0 .read [1] 1 .last,
        sampleRun 1 .read [0] 0 .pend] =
      some (sampleState [1, 2] 1 1
        [sampleCall 1 .read [0] 0 .blocked, sampleCall 0 .read [1] 1 .returned,
          sampleCall 2 .write [1, 2] 2 .returned]
        [(2, 1), (2, 2)] [(0, 1)] 3) := by
    decide +kernel
  refine ⟨_, .of_execute (fun _ _ _ => trivial) _ (.start initial_sample) result, fun gates => ?_⟩
  have quiet : ∀ call ∈ [sampleCall 1 .read [0] 0 .blocked, sampleCall 0 .read [1] 1 .returned,
      sampleCall 2 .write [1, 2] 2 .returned], call.phase = .blocked ∨ call.phase = .returned := by
    decide
  exact absurd (gates.read quiet _ List.mem_cons_self rfl).1 (by decide +kernel)

end TowerSafe.Pipe
