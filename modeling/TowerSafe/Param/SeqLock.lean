/-
This file is about reading a parameter while it is updated (`ReadParamValue` and `UpdateParam`). A
writer marks the commit id of the parameter, copies the new value byte by byte and stores the next
commit id. A reader waits until the commit id is not marked, copies the value and starts again when
the commit id has changed meanwhile. Every access to the shared entry is a step of its own.
-/

import TowerSafe.Library.Transition
import TowerSafe.Param.WorkSpace

namespace TowerSafe.SeqLock

open Library Param List Option

/-! ### The program -/

def paramFlagsModify : BitVec 32 := 0x80000000

/-- What the reader and the writer of a `ParamNode` share; `data` are the bytes behind its name. -/
structure Entry where
  commitId : BitVec 32
  valueLength : Nat
  data : Nat → Char

def Entry.value (entry : Entry) : CString :=
  (List.range entry.valueLength).map entry.data

/-- Where the writer is in `UpdateParam`. -/
inductive Writer where
  | idle
  | loaded (value : CString) (commitId : BitVec 32)
  | marked (value : CString) (commitId : BitVec 32)
  | copying (value : CString) (commitId : BitVec 32) (left : List Nat)
  | finishing (commitId : BitVec 32)
  deriving DecidableEq

/-- The codes that the reader returns. -/
inductive ReadCode where
  | success
  | failed
  | invalidParam
  deriving DecidableEq

/-- Where the reader is in `ReadParamValue`; in a pass it has the commit id with which it began. -/
inductive Reader where
  | idle
  | entered
  | waiting
  | begun (commitId : BitVec 32)
  | copying (commitId : BitVec 32) (left : List Nat)
  | terminated (commitId : BitVec 32)
  | measured (commitId : BitVec 32)
  | returned (code : ReadCode)
  deriving DecidableEq

/-- The entry, the writer, and the reader with its buffer and `*length`. The last four fields are
not in the program: the value that was written last, the number of updates that are complete now and
when the pass began, and the values that the parameter has had since the call. -/
structure State where
  checked : Bool
  capacity : Nat
  entry : Entry
  writer : Writer
  reader : Reader
  buffer : Nat → Char
  length : Nat
  current : CString
  completed : Nat
  passStart : Nat
  held : List CString

/-- What happens next: the writer calls `UpdateParam`, copies a byte or takes its next step; so does
the reader with `ReadParamValue`. -/
inductive Action where
  | update (value : CString)
  | writeByte (place : Nat)
  | writer
  | call
  | readByte (place : Nat)
  | reader
  deriving DecidableEq

/-- The writer has not marked the commit id. -/
def Writer.Quiet : Writer → Prop
  | .idle => True
  | .loaded _ _ => True
  | _ => False

instance (writer : Writer) : Decidable writer.Quiet := by
  cases writer <;> unfold Writer.Quiet <;> infer_instance

def Reader.InCall : Reader → Prop
  | .idle => False
  | .returned _ => False
  | _ => True

instance (reader : Reader) : Decidable reader.InCall := by
  cases reader <;> unfold Reader.InCall <;> infer_instance

/-- The commit id that `ReadCommitId` returns, unless it waits. -/
def readCommitId (commitId : BitVec 32) : Option (BitVec 32) :=
  if commitId &&& paramFlagsModify ≠ 0 then none else some (commitId &&& WorkSpace.paramFlagsCommitId)

/-- `memcpy_s` fails for a destination without room, and for one with too little. -/
def memcpyFails (destMax count : Nat) : Prop :=
  destMax = 0 ∨ count > destMax

instance (destMax count : Nat) : Decidable (memcpyFails destMax count) := by
  unfold memcpyFails
  infer_instance

namespace State

variable (st : State)

/-- A step of the writer that is not the copy of a byte. -/
def writerStep : Option State :=
  match st.writer with
  | .idle => none
  | .loaded value commitId =>
      some { st with
        entry := { st.entry with commitId := commitId ||| paramFlagsModify }
        writer := .marked value commitId }
  | .marked value commitId =>
      if st.entry.valueLength < paramValueLenMax ∧ value.length < paramValueLenMax then
        some { st with writer := .copying value commitId (List.range (value.length + 1)) }
      else some { st with writer := .finishing commitId }
  | .copying value commitId [] =>
      some { st with
        entry := { st.entry with valueLength := value.length }
        writer := .finishing commitId
        current := value }
  | .copying _ _ (_ :: _) => none
  | .finishing commitId =>
      some { st with
        entry := { st.entry with commitId := WorkSpace.nextCommitId commitId }
        writer := .idle
        completed := st.completed + 1
        held := if st.reader.InCall then st.current :: st.held else st.held }

/-- A step of the reader that is not the copy of a byte. -/
def readerStep : Option State :=
  match st.reader with
  | .idle => none
  | .entered =>
      if st.length > st.entry.valueLength then some { st with reader := .waiting }
      else some { st with reader := .returned .invalidParam }
  | .waiting =>
      match readCommitId st.entry.commitId with
      | none => some st
      | some commitId => some { st with reader := .begun commitId, passStart := st.completed }
  | .begun commitId =>
      if st.checked ∧ memcpyFails st.length st.entry.valueLength then
        some { st with
          reader := .returned .failed
          buffer := fun place => if place < st.length then '\x00' else st.buffer place }
      else some { st with reader := .copying commitId (List.range st.entry.valueLength) }
  | .copying commitId [] =>
      some { st with
        reader := .terminated commitId
        buffer := Function.update st.buffer st.entry.valueLength '\x00' }
  | .copying _ (_ :: _) => none
  | .terminated commitId =>
      some { st with reader := .measured commitId, length := st.entry.valueLength }
  | .measured commitId =>
      match readCommitId st.entry.commitId with
      | none => some st
      | some id =>
          if commitId = id then some { st with reader := .returned .success }
          else some { st with reader := .begun id, passStart := st.completed }
  | .returned _ => none

/-- The next state. The buffer is large enough for every value that is written. -/
def step : Action → Option State
  | .update value =>
      if st.writer = .idle ∧ value.length < st.capacity then
        some { st with writer := .loaded value st.entry.commitId }
      else none
  | .writeByte place =>
      match st.writer with
      | .copying value commitId left =>
          if place ∈ left then
            some { st with
              entry := { st.entry with
                data := Function.update st.entry.data place (value.getD place '\x00') }
              writer := .copying value commitId (left.erase place) }
          else none
      | _ => none
  | .writer => st.writerStep
  | .call =>
      if st.reader.InCall then none
      else
        some { st with
          reader := .entered
          length := st.capacity
          held := if st.writer.Quiet then [st.current] else [] }
  | .readByte place =>
      match st.reader with
      | .copying commitId left =>
          if place ∈ left then
            some { st with
              reader := .copying commitId (left.erase place)
              buffer := Function.update st.buffer place (st.entry.data place) }
          else none
      | _ => none
  | .reader => st.readerStep

/-- The parameter has just been added. -/
def Initial : Prop :=
  st.entry.commitId = 0 ∧ st.entry.value = st.current ∧ st.entry.valueLength < st.capacity ∧
    st.writer = .idle ∧ st.reader = .idle ∧ st.completed = 0

/-- A call that has returned has succeeded, with a value that the parameter has had since the
call. -/
def ReadsComplete : Prop :=
  ∀ code, st.reader = .returned code → code = .success ∧
    (List.range st.length).map st.buffer ∈ st.held ∧ st.buffer st.length = '\x00'

/-- A reader that copies has room for the value where it looks at its room, and a reader whose pass
ends did not miss as many updates as there are commit ids. -/
def InOrder : Action → Prop
  | .reader =>
      match st.reader with
      | .begun _ => st.checked = true → ¬memcpyFails st.length st.entry.valueLength
      | .measured _ => (st.completed - st.passStart) % 65536 = 0 → st.completed = st.passStart
      | _ => True
  | _ => True

instance (action : Action) : Decidable (st.InOrder action) := by
  unfold InOrder
  cases action <;> dsimp only <;> try infer_instance
  cases st.reader <;> dsimp only <;> infer_instance

end State

/-! ### Commit ids -/

def idOf (commitId : BitVec 32) : Nat :=
  (commitId &&& WorkSpace.paramFlagsCommitId).toNat

theorem idOf_eq (commitId : BitVec 32) : idOf commitId = commitId.toNat % 65536 := by
  exact Nat.and_two_pow_sub_one_eq_mod commitId.toNat 16

theorem idOf_nextCommitId (commitId : BitVec 32) :
    idOf (WorkSpace.nextCommitId commitId) = (idOf commitId + 1) % 65536 := by
  have flags : (commitId &&& ~~~WorkSpace.paramFlagsCommitId) &&& WorkSpace.paramFlagsCommitId =
      0#32 := by
    have apart : ~~~WorkSpace.paramFlagsCommitId &&& WorkSpace.paramFlagsCommitId = 0#32 := by
      decide
    rw [BitVec.and_assoc, apart, BitVec.and_zero]
  have number : idOf (WorkSpace.nextCommitId commitId) = idOf (commitId + 1) := by
    rw [idOf, WorkSpace.nextCommitId, BitVec.and_comm, BitVec.and_or_distrib_left,
      BitVec.and_comm _ (commitId + 1), BitVec.and_comm _ (commitId &&& _), flags, BitVec.or_zero,
      idOf]
  rw [number, idOf_eq, idOf_eq, BitVec.toNat_add, show (1 : BitVec 32).toNat = 1 from rfl]
  omega

theorem marked_ne_zero (commitId : BitVec 32) :
    (commitId ||| paramFlagsModify) &&& paramFlagsModify ≠ 0 := by
  have self : (commitId ||| paramFlagsModify) &&& paramFlagsModify = paramFlagsModify := by
    rw [BitVec.and_comm, BitVec.or_comm]
    ext place
    simp only [BitVec.getElem_or, BitVec.getElem_and]
    cases paramFlagsModify[place] <;> rfl
  rw [self]
  decide

/-! ### What every run keeps -/

/-- What the writer has done so far. -/
def Writer.Keeps (entry : Entry) (current : CString) (completed : Nat) : Writer → Prop
  | .idle => idOf entry.commitId = completed % 65536 ∧ entry.value = current
  | .loaded _ commitId =>
      idOf entry.commitId = completed % 65536 ∧ entry.value = current ∧
        entry.commitId = commitId
  | .marked _ commitId =>
      idOf commitId = completed % 65536 ∧ entry.value = current ∧
        entry.commitId = commitId ||| paramFlagsModify
  | .copying value commitId left =>
      idOf commitId = completed % 65536 ∧ entry.commitId = commitId ||| paramFlagsModify ∧
        ∀ place, place ≤ value.length → place ∉ left →
          entry.data place = value.getD place '\x00'
  | .finishing commitId =>
      idOf commitId = completed % 65536 ∧ entry.value = current ∧
        entry.commitId = commitId ||| paramFlagsModify

def Reader.passId : Reader → Option (BitVec 32)
  | .begun commitId => some commitId
  | .copying commitId _ => some commitId
  | .terminated commitId => some commitId
  | .measured commitId => some commitId
  | _ => none

/-- What a reader has copied so far is what an entry holds. -/
def Reader.Matches (entry : Entry) (buffer : Nat → Char) (length : Nat) : Reader → Prop
  | .copying _ left =>
      ∀ place, place < entry.valueLength → place ∉ left → buffer place = entry.data place
  | .terminated _ =>
      (∀ place, place < entry.valueLength → buffer place = entry.data place) ∧
        buffer entry.valueLength = '\x00'
  | .measured _ =>
      (∀ place, place < entry.valueLength → buffer place = entry.data place) ∧
        buffer entry.valueLength = '\x00' ∧ length = entry.valueLength
  | _ => True

/-- The writer's next value is no longer than the buffer has room for. -/
def Writer.Short (capacity : Nat) : Writer → Prop
  | .loaded value _ => value.length < capacity
  | .marked value _ => value.length < capacity
  | .copying value _ _ => value.length < capacity
  | _ => True

/-- What every run keeps. -/
structure Invariant (st : State) : Prop where
  short : st.entry.valueLength < st.capacity ∧ st.writer.Short st.capacity
  writer : st.writer.Keeps st.entry st.current st.completed
  held : st.reader.InCall → st.writer.Quiet → st.current ∈ st.held
  room : st.reader = .entered → st.length = st.capacity
  began : ∀ commitId, st.reader.passId = some commitId →
    commitId.toNat = st.passStart % 65536 ∧ st.passStart ≤ st.completed
  pass : st.passStart = st.completed → st.writer.Quiet →
    st.reader.Matches st.entry st.buffer st.length
  reads : st.ReadsComplete

namespace Invariant

variable {st next : State}

theorem matches_of_passId {entry : Entry} {buffer : Nat → Char} {length : Nat} {reader : Reader}
    (outside : reader.passId = none) : reader.Matches entry buffer length := by
  cases reader <;> trivial

theorem of_readCommitId (invariant : Invariant st) {id : BitVec 32}
    (reads : readCommitId st.entry.commitId = some id) :
    st.writer.Quiet ∧ id.toNat = st.completed % 65536 := by
  rw [readCommitId, ite_none_left_eq_some] at reads
  obtain ⟨clear, reads⟩ := reads
  obtain rfl := some.inj reads
  have keeps := invariant.writer
  cases phase : st.writer with
  | idle =>
    rw [phase] at keeps
    exact ⟨trivial, keeps.1⟩
  | loaded value commitId =>
    rw [phase] at keeps
    exact ⟨trivial, keeps.1⟩
  | marked value commitId =>
    rw [phase] at keeps
    rw [keeps.2.2] at clear
    exact absurd (marked_ne_zero commitId) clear
  | copying value commitId left =>
    rw [phase] at keeps
    rw [keeps.2.1] at clear
    exact absurd (marked_ne_zero commitId) clear
  | finishing commitId =>
    rw [phase] at keeps
    rw [keeps.2.2] at clear
    exact absurd (marked_ne_zero commitId) clear

theorem update (invariant : Invariant st) {value : CString}
    (steps : st.step (.update value) = some next) : Invariant next := by
  rw [State.step, ite_none_right_eq_some] at steps
  obtain ⟨⟨idle, room⟩, steps⟩ := steps
  obtain rfl := some.inj steps
  have keeps := invariant.writer
  have quiet : st.writer.Quiet := idle ▸ trivial
  rw [idle] at keeps
  exact ⟨⟨invariant.short.1, room⟩, ⟨keeps.1, keeps.2, rfl⟩,
    fun inCall _ => invariant.held inCall quiet, invariant.room, invariant.began,
    fun same _ => invariant.pass same quiet, invariant.reads⟩

theorem writeByte (invariant : Invariant st) {place : Nat}
    (steps : st.step (.writeByte place) = some next) : Invariant next := by
  rw [State.step] at steps
  cases phase : st.writer with
  | copying value commitId left =>
    rw [phase] at steps
    rw [ite_none_right_eq_some] at steps
    obtain ⟨member, steps⟩ := steps
    obtain rfl := some.inj steps
    have short := invariant.short
    have keeps := invariant.writer
    rw [phase] at short keeps
    refine ⟨short, ⟨keeps.1, keeps.2.1, fun other inside written => ?_⟩, fun _ => nofun,
      invariant.room, invariant.began, fun _ => nofun, invariant.reads⟩
    by_cases same : other = place
    · rw [same]
      exact Function.update_self ..
    · refine (Function.update_of_ne same ..).trans (keeps.2.2 other inside fun left => ?_)
      exact written ((mem_erase_of_ne same).mpr left)
  | _ =>
    rw [phase] at steps
    exact absurd steps nofun

theorem map_data {value : CString} {data : Nat → Char}
    (copied : ∀ place, place ≤ value.length → data place = value.getD place '\x00') :
    (List.range value.length).map data = value := by
  refine ext_getElem (by simp) fun place inside _ => ?_
  have bound : place < value.length := by simpa using inside
  rw [getElem_map, getElem_range, copied place (Nat.le_of_lt bound),
    getD_eq_getElem?_getD, List.getElem?_eq_getElem bound, getD_some]

section

variable (invariant : Invariant st)
include invariant

theorem writer_ (steps : st.step .writer = some next) :
    Invariant next := by
  rw [State.step, State.writerStep.eq_def] at steps
  have short := invariant.short
  have keeps := invariant.writer
  cases phase : st.writer with
  | idle =>
    rw [phase] at steps
    exact absurd steps nofun
  | loaded value commitId =>
    rw [phase] at steps short keeps
    obtain rfl := some.inj steps
    exact ⟨short, ⟨keeps.2.2 ▸ keeps.1, keeps.2.1, rfl⟩, fun _ => nofun, invariant.room,
      invariant.began, fun _ => nofun, invariant.reads⟩
  | marked value commitId =>
    rw [phase] at steps short keeps
    dsimp only at steps
    split at steps
    · obtain rfl := some.inj steps
      refine ⟨short, ⟨keeps.1, keeps.2.2, fun place inside left => ?_⟩, fun _ => nofun,
        invariant.room, invariant.began, fun _ => nofun, invariant.reads⟩
      exact absurd (mem_range.mpr (Nat.lt_succ_of_le inside)) left
    · obtain rfl := some.inj steps
      exact ⟨⟨short.1, trivial⟩, keeps, fun _ => nofun, invariant.room, invariant.began,
        fun _ => nofun, invariant.reads⟩
  | copying value commitId left =>
    rw [phase] at steps short keeps
    cases left with
    | cons place rest => exact absurd steps nofun
    | nil =>
      obtain rfl := some.inj steps
      exact ⟨⟨short.2, trivial⟩,
        ⟨keeps.1, map_data fun place inside => keeps.2.2 place inside nofun, keeps.2.1⟩,
        fun _ => nofun, invariant.room, invariant.began, fun _ => nofun, invariant.reads⟩
  | finishing commitId =>
    rw [phase] at steps short keeps
    obtain rfl := some.inj steps
    refine ⟨⟨short.1, trivial⟩, ⟨?_, keeps.2.1⟩, fun inCall _ => ?_, invariant.room,
      fun id begun => ?_, fun same _ => ?_, fun code returned => ?_⟩
    · rw [idOf_nextCommitId, keeps.1]
      show _ = (st.completed + 1) % 65536
      omega
    · rw [if_pos (show st.reader.InCall from inCall)]
      exact mem_cons_self
    · obtain ⟨number, before⟩ := invariant.began id begun
      exact ⟨number, Nat.le_succ_of_le before⟩
    · cases begun : st.reader.passId with
      | none => exact matches_of_passId begun
      | some id =>
        have before := (invariant.began id begun).2
        exact absurd same (Nat.ne_of_lt (Nat.lt_succ_of_le before))
    · obtain ⟨success, value, ends⟩ := invariant.reads code returned
      refine ⟨success, ?_, ends⟩
      have outside : ¬st.reader.InCall := by
        rw [show st.reader = _ from returned]
        exact id
      rw [if_neg outside]
      exact value

theorem call (steps : st.step .call = some next) : Invariant next := by
  rw [State.step, ite_none_left_eq_some] at steps
  obtain ⟨-, steps⟩ := steps
  obtain rfl := some.inj steps
  refine ⟨invariant.short, invariant.writer, fun _ quiet => ?_, fun _ => rfl, nofun,
    fun _ _ => trivial, nofun⟩
  rw [if_pos (show st.writer.Quiet from quiet)]
  exact mem_singleton_self _

theorem readByte {place : Nat}
    (steps : st.step (.readByte place) = some next) : Invariant next := by
  rw [State.step] at steps
  cases phase : st.reader with
  | copying commitId left =>
    rw [phase] at steps
    rw [ite_none_right_eq_some] at steps
    obtain ⟨member, steps⟩ := steps
    obtain rfl := some.inj steps
    have held := invariant.held
    have began := invariant.began
    have pass := invariant.pass
    rw [phase] at held began pass
    refine ⟨invariant.short, invariant.writer, held, nofun, began,
      fun same quiet other inside copied => ?_, nofun⟩
    by_cases here : other = place
    · rw [here]
      exact Function.update_self ..
    · refine (Function.update_of_ne here ..).trans (pass same quiet other inside fun left => ?_)
      exact copied ((mem_erase_of_ne here).mpr left)
  | _ =>
    rw [phase] at steps
    exact absurd steps nofun

theorem reader_ (inOrder : st.InOrder .reader)
    (steps : st.step .reader = some next) : Invariant next := by
  rw [State.step, State.readerStep.eq_def] at steps
  have held := invariant.held
  have room := invariant.room
  have began := invariant.began
  have pass := invariant.pass
  rw [State.InOrder] at inOrder
  cases phase : st.reader with
  | idle =>
    rw [phase] at steps
    exact absurd steps nofun
  | entered =>
    rw [phase] at steps held room
    have fits : st.length > st.entry.valueLength := by
      rw [room rfl]
      exact invariant.short.1
    rw [if_pos fits] at steps
    obtain rfl := some.inj steps
    exact ⟨invariant.short, invariant.writer, held, nofun, nofun, fun _ _ => trivial, nofun⟩
  | waiting =>
    rw [phase] at steps held
    cases reads : readCommitId st.entry.commitId with
    | none =>
      rw [reads] at steps
      obtain rfl := some.inj steps
      exact invariant
    | some commitId =>
      rw [reads] at steps
      obtain rfl := some.inj steps
      have number := (invariant.of_readCommitId reads).2
      refine ⟨invariant.short, invariant.writer, held, nofun, fun id begun => ?_,
        fun _ _ => trivial, nofun⟩
      obtain rfl := some.inj begun
      exact ⟨number, Nat.le_refl _⟩
  | begun commitId =>
    rw [phase] at steps held began inOrder
    dsimp only at steps inOrder
    rw [if_neg fun both => inOrder both.1 both.2] at steps
    obtain rfl := some.inj steps
    refine ⟨invariant.short, invariant.writer, held, nofun, began, fun _ _ place inside left => ?_,
      nofun⟩
    exact absurd (mem_range.mpr inside) left
  | copying commitId left =>
    rw [phase] at steps held began pass
    cases left with
    | cons place rest => exact absurd steps nofun
    | nil =>
      obtain rfl := some.inj steps
      refine ⟨invariant.short, invariant.writer, held, nofun, began,
        fun same quiet => ⟨fun place inside => ?_, Function.update_self ..⟩, nofun⟩
      exact (Function.update_of_ne (Nat.ne_of_lt inside) ..).trans
        (pass same quiet place inside nofun)
  | terminated commitId =>
    rw [phase] at steps held began pass
    obtain rfl := some.inj steps
    exact ⟨invariant.short, invariant.writer, held, nofun, began,
      fun same quiet => ⟨(pass same quiet).1, (pass same quiet).2, rfl⟩, nofun⟩
  | measured commitId =>
    rw [phase] at steps held began pass inOrder
    cases reads : readCommitId st.entry.commitId with
    | none =>
      rw [reads] at steps
      obtain rfl := some.inj steps
      exact invariant
    | some id =>
      rw [reads] at steps
      obtain ⟨quiet, number⟩ := invariant.of_readCommitId reads
      dsimp only at steps
      split at steps
      · rename_i unchanged
        obtain rfl := some.inj steps
        obtain ⟨first, before⟩ := began commitId rfl
        rw [unchanged] at first
        have same := inOrder (by omega)
        obtain ⟨copied, ends, length⟩ := pass same.symm quiet
        refine ⟨invariant.short, invariant.writer, nofun, nofun, nofun, fun _ _ => trivial,
          fun code returned => ⟨(Reader.returned.inj returned).symm, ?_, ?_⟩⟩
        · have value : (List.range st.length).map st.buffer = st.entry.value := by
            rw [length]
            exact map_congr_left fun place inside => copied place (mem_range.mp inside)
          have current : st.entry.value = st.current := by
            have keeps := invariant.writer
            cases writing : st.writer with
            | idle =>
              rw [writing] at keeps
              exact keeps.2
            | loaded value commitId =>
              rw [writing] at keeps
              exact keeps.2.1
            | _ =>
              rw [writing] at quiet
              exact quiet.elim
          rw [value, current]
          exact held trivial quiet
        · rw [length]
          exact ends
      · obtain rfl := some.inj steps
        refine ⟨invariant.short, invariant.writer, held, nofun, fun other begun => ?_,
          fun _ _ => trivial, nofun⟩
        obtain rfl := some.inj begun
        exact ⟨number, Nat.le_refl _⟩
  | returned code =>
    rw [phase] at steps
    exact absurd steps nofun

theorem step {action : Action} (inOrder : st.InOrder action)
    (steps : st.step action = some next) : Invariant next := by
  cases action with
  | update value => exact invariant.update steps
  | writeByte place => exact invariant.writeByte steps
  | writer => exact invariant.writer_ steps
  | call => exact invariant.call steps
  | readByte place => exact invariant.readByte steps
  | reader => exact invariant.reader_ inOrder steps

end

theorem of_initial (initial : st.Initial) : Invariant st := by
  obtain ⟨commitId, value, short, writer, reader, completed⟩ := initial
  refine ⟨⟨short, ?_⟩, ?_, ?_, ?_, ?_, fun _ _ => ?_, ?_⟩
  · rw [writer]
    trivial
  · rw [writer, completed]
    refine ⟨?_, value⟩
    rw [commitId]
    rfl
  · rw [reader]
    exact nofun
  · rw [reader]
    exact nofun
  · rw [reader]
    exact nofun
  · rw [reader]
    trivial
  · rw [State.ReadsComplete, reader]
    exact nofun

end Invariant

/-- As long as every pass has room and does not miss as many updates as there are commit ids, every
read that returns has read a value that the parameter had during the call. -/
theorem reads_complete {st : State}
    (reached : Reachable State.step State.InOrder State.Initial st) : st.ReadsComplete :=
  (reached.invariant (fun _ => Invariant.of_initial)
    fun _ _ _ _ holds inOrder steps => holds.step inOrder steps).reads

/-- A parameter with a value, in a build whose copies are checked, and a reader with room for 96
bytes. -/
def parameter (value : CString) : State :=
  ⟨true, 96, ⟨0, value.length, fun place => value.getD place '\x00'⟩, .idle, .idle,
    fun _ => '\x00', 0, value, 0, 0, []⟩

theorem parameter_initial (value : CString) (short : value.length < 96) :
    (parameter value).Initial :=
  ⟨rfl, Invariant.map_data fun _ _ => rfl, short, rfl, rfl, rfl⟩

/-- An update from beginning to end. -/
def updateTo (value : CString) : List Action :=
  .update value :: .writer :: .writer ::
    ((List.range (value.length + 1)).map Action.writeByte).append [.writer, .writer]

/-- A reader whose first pass meets an update by a value of the same length. -/
def sampleActions : List Action :=
  List.flatten [[.call, .reader, .reader, .reader, .readByte 1], updateTo "off".toList,
    [.readByte 0, .readByte 2, .reader, .reader, .reader, .reader, .readByte 0, .readByte 2,
      .readByte 1, .reader, .reader, .reader]]

theorem reads_complete_sample : ∃ st,
    execute State.step (fun st action => decide (st.InOrder action)) (parameter "yes".toList)
      sampleActions = some st ∧ st.ReadsComplete := by
  have runs : (execute State.step (fun st action => decide (st.InOrder action))
      (parameter "yes".toList) sampleActions).isSome = true := by decide
  obtain ⟨st, result⟩ := Option.isSome_iff_exists.mp runs
  exact ⟨st, result, reads_complete (.of_execute (fun _ _ => of_decide_eq_true) _
    (.start (parameter_initial _ (by decide))) result)⟩

/-- A reader that has measured the short value when the parameter gets a longer one. -/
def failingActions : List Action :=
  List.flatten [[.call, .reader, .reader, .reader, .readByte 0, .reader, .reader],
    updateTo "20".toList, [.reader, .reader]]

/-- A read fails because the value has become longer. -/
theorem reads_fail : ¬∀ st, Reachable State.step (fun _ _ => True) State.Initial st →
    st.ReadsComplete := by
  intro all
  have runs : (execute State.step (fun _ _ => true) (parameter "1".toList) failingActions).map
      State.reader = some (.returned .failed) := by decide
  obtain ⟨st, result, failed⟩ := Option.map_eq_some_iff.mp runs
  have reads := all st (.of_execute (fun _ _ _ => trivial) _
    (.start (parameter_initial _ (by decide))) result)
  exact absurd (reads _ failed).1 nofun

end TowerSafe.SeqLock
