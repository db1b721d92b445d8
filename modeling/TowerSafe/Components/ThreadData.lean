/-
This file embeds the thread-specific data of `pthread.c`: the keys, the data blocks of the threads
and the list of them, and the calls that work on these while other threads exit. In every run of
careful steps the list has the blocks of the threads that live, a thread gets back what it set, and
each destructor is applied once to the value that a thread leaves.
-/

import Mathlib
import TowerSafe.Library.Transition
import TowerSafe.Library.Bitmap

namespace TowerSafe.ThreadData

open Library List Option
open Function (update update_self update_of_ne)

/-! ### Keys, blocks and threads -/

def pthreadKeysMax : Nat := 128

/-- `PthreadKey`: whether its flag is `PTHREAD_KEY_USED`, and the destructor by its address. -/
structure PthreadKey where
  used : Bool
  destructor : Option Nat
  deriving DecidableEq

/-- The array of values of a thread: none yet, an array, or one that has been freed. -/
inductive Values
  | null
  | array (values : Nat → Nat)
  | freed

/-- The fields of `PthreadData` that are used. Beside them stands, for each key, which destructors
have been applied to which values of the thread since the key was last created. -/
structure PthreadData where
  key : Values
  cancelEnabled : Bool
  cancelAsynchronous : Bool
  canceled : Bool
  destroyed : Nat → List (Nat × Nat)

/-- Where a thread is: it runs, or it is in `pthread_exit`, before the keys from a place on, before
the test of the value for a key, before the call of the destructor, in the destructor, before
`free` of the array, before it leaves the list, before `free` of the block, or before
`LOS_TaskDelete`. -/
inductive Phase
  | running
  | scan (count : Nat)
  | test (count : Nat) (dtor : Option Nat)
  | apply (count dtor : Nat)
  | inside (count : Nat)
  | freeKey
  | unlink
  | freeData
  | delete
  deriving DecidableEq

/-- A task whose entry is `PthreadEntry`, with the address of its block. -/
structure Thread where
  arg : Nat
  phase : Phase
  deriving DecidableEq

/-- The variables of `pthread.c`, the threads and the blocks that are allocated. Beside them stands
what each thread last set for each key since the key was last created. -/
structure State where
  keyData : Nat → PthreadKey
  keyCount : Nat
  threads : Nat → Option Thread
  blocks : Nat → Option PthreadData
  list : List Nat
  lastSet : Nat → Nat → Nat

namespace State

/-- A thread goes on, with its block. -/
def setThread (state : State) (id : Nat) (thread : Thread) (data : PthreadData) : State :=
  { state with
    threads := update state.threads id (some thread)
    blocks := update state.blocks thread.arg (some data) }

def dataOf (state : State) (thread : Thread) : Option PthreadData := state.blocks thread.arg

/-- `pthread_create`: nothing happens unless a block and a task are granted. -/
def pthreadCreate (state : State) : Option (Nat × Nat) → Option State
  | none => some state
  | some (id, block) =>
      if (state.threads id).isSome ∨ (state.blocks block).isSome then none
      else
        some
          { state.setThread id ⟨block, .running⟩ ⟨.null, true, false, false, fun _ => []⟩ with
            list := block :: state.list
            lastSet := update state.lastSet id fun _ => 0 }

/-- `pthread_exit` begins. -/
def pthreadExit (state : State) (id : Nat) (thread : Thread) (data : PthreadData) : State :=
  let data := { data with cancelEnabled := false }
  match data.key with
  | .null => state.setThread id { thread with phase := .unlink } data
  | _ => state.setThread id { thread with phase := .scan 0 } data

/-- The next key that is used in the loop of `PthreadExitKeyDtor`. -/
def nextKey (state : State) (count : Nat) : Option Nat :=
  (List.range pthreadKeysMax).find? fun key => decide (count ≤ key) && (state.keyData key).used

/-- A step of `pthread_exit`. To use an array that is null or has been freed is undefined. -/
def exitStep (state : State) (id : Nat) (thread : Thread) (data : PthreadData) : Option State :=
  match thread.phase with
  | .running => none
  | .scan count =>
      some (state.setThread id
        { thread with
          phase :=
            match state.nextKey count with
            | none => .freeKey
            | some key => .test key (state.keyData key).destructor } data)
  | .test count dtor =>
      match dtor with
      | none => some (state.setThread id { thread with phase := .scan (count + 1) } data)
      | some dtor =>
          match data.key with
          | .array values =>
              some (state.setThread id
                { thread with
                  phase := if values count ≠ 0 then .apply count dtor else .scan (count + 1) } data)
          | _ => none
  | .apply count dtor =>
      match data.key with
      | .array values =>
          some (state.setThread id { thread with phase := .inside count }
            { data with
              destroyed := update data.destroyed count
                (data.destroyed count ++ [(dtor, values count)]) })
      | _ => none
  | .inside count => some (state.setThread id { thread with phase := .scan (count + 1) } data)
  | .freeKey =>
      some (state.setThread id { thread with phase := .unlink } { data with key := .freed })
  | .unlink =>
      some
        { state.setThread id { thread with phase := .freeData } data with
          list := state.list.erase thread.arg }
  | .freeData =>
      some
        { state with
          threads := update state.threads id (some { thread with phase := .delete })
          blocks := update state.blocks thread.arg none }
  | .delete => none

/-- `LOS_TaskDelete` at the end of `pthread_exit`. -/
def taskDelete (state : State) (id : Nat) : State :=
  { state with threads := update state.threads id none }

/-- `pthread_key_create`. Without an unused key the loop ends at the last one. -/
def pthreadKeyCreate (state : State) (dtor : Option Nat) : State :=
  if pthreadKeysMax ≤ state.keyCount then state
  else
    let place := ((List.range pthreadKeysMax).find? fun key =>
      !(state.keyData key).used).getD (pthreadKeysMax - 1)
    { state with
      keyData := update state.keyData place ⟨true, dtor⟩
      keyCount := state.keyCount + 1
      blocks := fun block => (state.blocks block).map fun data =>
        { data with destroyed := update data.destroyed place [] }
      lastSet := fun id => update (state.lastSet id) place 0 }

/-- What `pthread_key_delete` does to a block, undefined when its array has been freed. -/
def clearKey (key : Nat) (destructor : Option Nat) (data : PthreadData) : Option PthreadData :=
  match data.key with
  | .null => some data
  | .freed => none
  | .array values =>
      some
        { data with
          key := .array (update values key 0)
          destroyed :=
            match destructor with
            | none => data.destroyed
            | some dtor =>
                if values key ≠ 0 then
                  update data.destroyed key (data.destroyed key ++ [(dtor, values key)])
                else data.destroyed }

/-- The walk of `pthread_key_delete` along the list, undefined when a block has been freed. -/
def clearList (key : Nat) (destructor : Option Nat) :
    List Nat → (Nat → Option PthreadData) → Option (Nat → Option PthreadData)
  | [], blocks => some blocks
  | block :: rest, blocks =>
      (blocks block).bind fun data =>
        (clearKey key destructor data).bind fun cleared =>
          clearList key destructor rest (update blocks block (some cleared))

def pthreadKeyDelete (state : State) (key : Nat) : Option State :=
  if pthreadKeysMax ≤ key then some state
  else if state.keyCount = 0 ∨ (state.keyData key).used = false then some state
  else
    (clearList key (state.keyData key).destructor state.list state.blocks).map fun blocks =>
      { state with
        keyData := update state.keyData key ⟨false, none⟩
        keyCount := state.keyCount - 1
        blocks := blocks }

/-- `pthread_setspecific`, with whether there is memory for an array. -/
def pthreadSetspecific (state : State) (id : Nat) (thread : Thread) (data : PthreadData)
    (key value : Nat) (memory : Bool) : Option State :=
  if pthreadKeysMax ≤ key then some state
  else
    match data.key with
    | .freed => none
    | .null =>
        if memory = false then some state
        else if (state.keyData key).used = false then some state
        else
          some
            { state.setThread id thread
                { data with key := .array (update (fun _ => 0) key value) } with
              lastSet := update state.lastSet id
                (update (state.lastSet id) key value) }
    | .array values =>
        if (state.keyData key).used = false then some state
        else
          some
            { state.setThread id thread
                { data with key := .array (update values key value) } with
              lastSet := update state.lastSet id
                (update (state.lastSet id) key value) }

/-- `pthread_getspecific`, with `NULL` as zero. -/
def pthreadGetspecific (state : State) (data : PthreadData) (key : Nat) : Option Nat :=
  if pthreadKeysMax ≤ key then some 0
  else if (state.keyData key).used = false then some 0
  else
    match data.key with
    | .null => some 0
    | .freed => none
    | .array values => some (values key)

/-- `pthread_cancel`, with whether the task can be suspended. To use a block that has been freed is
undefined. -/
def pthreadCancel (state : State) (id : Nat) (thread : Thread) (suspends : Bool) : Option State :=
  (state.dataOf thread).map fun data =>
    let data := { data with canceled := true }
    if data.cancelEnabled = true ∧ data.cancelAsynchronous = true then
      if suspends then
        { state with
          threads := update state.threads id none
          blocks := update state.blocks thread.arg none }
      else state.setThread id thread { data with canceled := false }
    else state.setThread id thread data

end State

/-- What a thread does that runs or is in a destructor, of the calls of this file. -/
inductive Own
  | exit
  | keyCreate (dtor : Option Nat)
  | keyDelete (key : Nat)
  | setspecific (key value : Nat) (memory : Bool)
  | getspecific (key : Nat)
  | setcancelstate (enabled : Bool)
  | setcanceltype (asynchronous : Bool)
  deriving DecidableEq

/-- A thread is created, or canceled; a thread makes a call; or it goes on in `pthread_exit`. -/
inductive Action
  | create (granted : Option (Nat × Nat))
  | cancel (id : Nat) (suspends : Bool)
  | own (id : Nat) (call : Own)
  | exitStep (id : Nat)
  deriving DecidableEq

def Phase.calls : Phase → Bool
  | .running | .inside _ => true
  | _ => false

/-- A call of a thread. -/
def State.own (state : State) (id : Nat) (thread : Thread) (data : PthreadData) :
    Own → Option State
  | .exit => some (state.pthreadExit id thread data)
  | .keyCreate dtor => some (state.pthreadKeyCreate dtor)
  | .keyDelete key => state.pthreadKeyDelete key
  | .setspecific key value memory => state.pthreadSetspecific id thread data key value memory
  | .getspecific key => (state.pthreadGetspecific data key).map fun _ => state
  | .setcancelstate enabled =>
      some (state.setThread id thread { data with cancelEnabled := enabled })
  | .setcanceltype asynchronous =>
      some (state.setThread id thread { data with cancelAsynchronous := asynchronous })

def step (state : State) : Action → Option State
  | .create granted => state.pthreadCreate granted
  | .cancel id suspends =>
      (state.threads id).bind fun thread => state.pthreadCancel id thread suspends
  | .own id call =>
      (state.threads id).bind fun thread =>
        if thread.phase.calls then
          (state.dataOf thread).bind fun data => state.own id thread data call
        else none
  | .exitStep id =>
      (state.threads id).bind fun thread =>
        if thread.phase = .delete then some (state.taskDelete id)
        else (state.dataOf thread).bind fun data => state.exitStep id thread data

def initial : State :=
  ⟨fun _ => ⟨false, none⟩, 0, fun _ => none, fun _ => none, [], fun _ _ => 0⟩

/-! ### What the data is to be -/

def Phase.lives : Phase → Bool
  | .freeData | .delete => false
  | _ => true

/-- The destructors have been applied as far as the key. -/
def Phase.passed (phase : Phase) (key : Nat) : Bool :=
  match phase with
  | .running => false
  | .scan count => decide (key < count)
  | .test count _ => decide (key < count)
  | .apply count _ => decide (key < count)
  | .inside count => decide (key ≤ count)
  | _ => true

/-- The destructors are about to be applied to the key, or have been. -/
def Phase.taken (phase : Phase) (key : Nat) : Bool :=
  match phase with
  | .apply count _ => decide (key ≤ count)
  | _ => phase.passed key

/-- The destructors of all keys have been applied, and the block is still there. -/
def Phase.ended : Phase → Bool
  | .freeKey | .unlink | .freeData => true
  | _ => false

/-- A step is careful when no thread is canceled asynchronously, no destructor calls
`pthread_exit`, no key is deleted whose destructor is applied to a value that an exiting thread
still has, nor while a freed array is in the list, and a destructor sets no value for a key that
the exit has passed, unless the key has no destructor. -/
def State.careful (state : State) : Action → Prop
  | .create _ | .exitStep _ => True
  | .cancel id suspends => ∀ thread data, state.threads id = some thread →
      state.dataOf thread = some data →
      ¬(data.cancelEnabled = true ∧ data.cancelAsynchronous = true ∧ suspends = true)
  | .own id call => ∀ thread, state.threads id = some thread →
      match call with
      | .exit => thread.phase = .running
      | .keyDelete key => ∀ other thread data, state.threads other = some thread →
          thread.phase.lives = true → state.dataOf thread = some data →
          (∀ values, data.key = .array values → values key ≠ 0 →
            (state.keyData key).destructor ≠ none → thread.phase.taken key = false) ∧
          data.key ≠ .freed
      | .setspecific key value _ =>
          value = 0 ∨ (state.keyData key).destructor = none ∨ thread.phase.passed key = false
      | _ => True

/-! ### What holds of one thread -/

/-- The phases of `PthreadExitKeyDtor`, and those in which a thread cannot be without its array. -/
def Phase.scans : Phase → Bool
  | .scan _ | .test _ _ | .apply _ _ | .inside _ | .freeKey => true
  | _ => false

/-- What holds of a block whose thread last set some values and is in a phase. -/
structure PthreadData.Ok (data : PthreadData) (keyData : Nat → PthreadKey) (last : Nat → Nat)
    (phase : Phase) : Prop where
  values : ∀ values, data.key = .array values → ∀ key < pthreadKeysMax,
    values key = if (keyData key).used then last key else 0
  null : data.key = .null → ∀ key < pthreadKeysMax, (keyData key).used = true → last key = 0
  array : phase.scans = true → ∃ values, data.key = .array values
  freed : data.key = .freed → phase = .unlink ∨ phase = .freeData
  gone : phase = .unlink ∨ phase = .freeData → data.key = .null ∨ data.key = .freed
  once : ∀ key, (data.destroyed key).length ≤ 1
  before : ∀ key < pthreadKeysMax, (keyData key).used = true → phase.passed key = false →
    data.destroyed key = []
  after : ∀ key < pthreadKeysMax, (keyData key).used = true → phase.passed key = true →
    ∀ dtor, (keyData key).destructor = some dtor → last key ≠ 0 →
      data.destroyed key = [(dtor, last key)]
  testing : ∀ count dtor, phase = .test count dtor → count < pthreadKeysMax ∧
    ((keyData count).used = true → last count ≠ 0 → (keyData count).destructor = dtor)
  applying : ∀ count dtor, phase = .apply count dtor → count < pthreadKeysMax ∧
    (keyData count).used = true ∧ (keyData count).destructor = some dtor ∧ last count ≠ 0

namespace PthreadData.Ok

variable {data now : PthreadData} {keyData : Nat → PthreadKey} {last : Nat → Nat}
  {phase after : Phase} {count : Nat}

theorem move (ok : data.Ok keyData last phase) (key : now.key = data.key)
    (destroyed : now.destroyed = data.destroyed)
    (keeps : ∀ key < pthreadKeysMax, (keyData key).used = true → phase.passed key = true →
      after.passed key = true)
    (passes : ∀ key < pthreadKeysMax, (keyData key).used = true → after.passed key = true →
      phase.passed key = false → (keyData key).destructor = none ∨ last key = 0)
    (array : after.scans = true → ∃ values, data.key = .array values)
    (freed : data.key = .freed → after = .unlink ∨ after = .freeData)
    (gone : after = .unlink ∨ after = .freeData → data.key = .null ∨ data.key = .freed)
    (testing : ∀ count dtor, after = .test count dtor → count < pthreadKeysMax ∧
      ((keyData count).used = true → last count ≠ 0 → (keyData count).destructor = dtor))
    (applying : ∀ count dtor, after = .apply count dtor → count < pthreadKeysMax ∧
      (keyData count).used = true ∧ (keyData count).destructor = some dtor ∧ last count ≠ 0) :
    now.Ok keyData last after where
  values := key ▸ ok.values
  null := key ▸ ok.null
  array := key ▸ array
  freed := key ▸ freed
  gone := key ▸ gone
  once := destroyed ▸ ok.once
  before := fun place small used unpassed => by
    rw [destroyed]
    refine ok.before place small used (Bool.eq_false_iff.mpr fun passed => ?_)
    exact Bool.false_ne_true (unpassed.symm.trans (keeps place small used passed))
  after := fun place small used passed dtor destructor some_ => by
    rw [destroyed]
    cases earlier : phase.passed place with
    | true => exact ok.after place small used earlier dtor destructor some_
    | false =>
      rcases passes place small used passed earlier with none_ | zero
      · rw [none_] at destructor
        cases destructor
      · exact absurd zero some_
  testing := testing
  applying := applying

theorem value (ok : data.Ok keyData last phase) {values : Nat → Nat}
    (array : data.key = .array values) {key : Nat} (small : key < pthreadKeysMax)
    (some_ : values key ≠ 0) : (keyData key).used = true ∧ values key = last key := by
  have value := ok.values values array key small
  cases used : (keyData key).used with
  | true =>
    rw [used] at value
    exact ⟨rfl, value⟩
  | false =>
    rw [used] at value
    exact absurd value some_

theorem exit_null (ok : data.Ok keyData last .running) (null : data.key = .null)
    (key : now.key = data.key) (destroyed : now.destroyed = data.destroyed) :
    now.Ok keyData last .unlink := by
  refine ok.move key destroyed (fun place _ _ no => absurd no Bool.false_ne_true)
    (fun place small used _ _ => .inr (ok.null null place small used))
    (fun no => absurd no Bool.false_ne_true) (fun _ => .inl rfl) (fun _ => .inl null)
    (fun _ _ no => ?_) fun _ _ no => ?_
  · cases no
  · cases no

theorem exit_array (ok : data.Ok keyData last .running) (some_ : data.key ≠ .null)
    (key : now.key = data.key) (destroyed : now.destroyed = data.destroyed) :
    now.Ok keyData last (.scan 0) := by
  have intact : data.key ≠ .freed := fun freed => by
    rcases ok.freed freed with no | no <;> cases no
  refine ok.move key destroyed (fun place _ _ no => absurd no Bool.false_ne_true)
    (fun place _ _ no _ => ?_) (fun _ => ?_) (fun freed => absurd freed intact) (fun no => ?_)
    (fun _ _ no => ?_) fun _ _ no => ?_
  · have below : decide (place < 0) = true := no
    exact absurd (of_decide_eq_true below) (Nat.not_lt_zero place)
  · cases array : data.key with
    | null => exact absurd array some_
    | array values => exact ⟨values, rfl⟩
    | freed => exact absurd array intact
  · rcases no with no | no <;> cases no
  · cases no
  · cases no

theorem scan_end (ok : data.Ok keyData last (.scan count))
    (none_ : ∀ key < pthreadKeysMax, (keyData key).used = true → key < count) :
    data.Ok keyData last .freeKey := by
  refine ok.move rfl rfl (fun _ _ _ _ => rfl) (fun key small used _ unpassed => ?_)
    (fun _ => ok.array rfl) (fun freed => ?_) (fun no => ?_) (fun _ _ no => ?_)
    fun _ _ no => ?_
  · exact absurd (none_ key small used) (of_decide_eq_false unpassed)
  · rcases ok.freed freed with no | no <;> cases no
  · rcases no with no | no <;> cases no
  · cases no
  · cases no

theorem scan_next (ok : data.Ok keyData last (.scan count)) {key : Nat}
    (small : key < pthreadKeysMax) (later : count ≤ key)
    (between : ∀ other, count ≤ other → other < key → (keyData other).used = false) :
    data.Ok keyData last (.test key (keyData key).destructor) := by
  refine ok.move rfl rfl (fun other _ _ passed => ?_) (fun other _ used passed unpassed => ?_)
    (fun _ => ok.array rfl) (fun freed => ?_) (fun no => ?_) (fun _ _ same => ?_)
    fun _ _ no => ?_
  · exact decide_eq_true (Nat.lt_of_lt_of_le (of_decide_eq_true passed) later)
  · have unused := between other (Nat.not_lt.mp (of_decide_eq_false unpassed))
      (of_decide_eq_true passed)
    rw [used] at unused
    cases unused
  · rcases ok.freed freed with no | no <;> cases no
  · rcases no with no | no <;> cases no
  · obtain ⟨rfl, rfl⟩ := Phase.test.inj same
    exact ⟨small, fun _ _ => rfl⟩
  · cases no

theorem test_skip {dtor : Option Nat} (ok : data.Ok keyData last (.test count dtor))
    (nothing : (keyData count).used = true → (keyData count).destructor = none ∨ last count = 0) :
    data.Ok keyData last (.scan (count + 1)) := by
  refine ok.move rfl rfl (fun key _ _ passed => ?_) (fun key _ used passed unpassed => ?_)
    (fun _ => ok.array rfl) (fun freed => ?_) (fun no => ?_) (fun _ _ no => ?_)
    fun _ _ no => ?_
  · exact decide_eq_true (Nat.lt_succ_of_lt (of_decide_eq_true passed))
  · have same : key = count := Nat.le_antisymm (Nat.le_of_lt_succ (of_decide_eq_true passed))
      (Nat.not_lt.mp (of_decide_eq_false unpassed))
    subst same
    exact nothing used
  · rcases ok.freed freed with no | no <;> cases no
  · rcases no with no | no <;> cases no
  · cases no
  · cases no

theorem test_apply {dtor : Nat} (ok : data.Ok keyData last (.test count (some dtor)))
    {values : Nat → Nat} (array : data.key = .array values) (some_ : values count ≠ 0) :
    data.Ok keyData last (.apply count dtor) := by
  obtain ⟨small, destructor⟩ := ok.testing count _ rfl
  obtain ⟨used, value⟩ := ok.value array small some_
  rw [value] at some_
  refine ok.move rfl rfl (fun _ _ _ passed => passed) (fun key _ _ passed unpassed => ?_)
    (fun _ => ⟨values, array⟩) (fun freed => ?_) (fun no => ?_) (fun _ _ no => ?_)
    fun _ _ same => ?_
  · exact absurd (of_decide_eq_true passed) (of_decide_eq_false unpassed)
  · rw [array] at freed
    cases freed
  · rcases no with no | no <;> cases no
  · cases no
  · obtain ⟨rfl, rfl⟩ := Phase.apply.inj same
    exact ⟨small, used, destructor used some_, some_⟩

theorem apply_inside {dtor : Nat} (ok : data.Ok keyData last (.apply count dtor))
    {values : Nat → Nat} (array : data.key = .array values) (key : now.key = data.key)
    (destroyed : now.destroyed = update data.destroyed count
      (data.destroyed count ++ [(dtor, values count)])) : now.Ok keyData last (.inside count) := by
  obtain ⟨small, used, destructor, some_⟩ := ok.applying count dtor rfl
  have value := ok.values values array count small
  rw [if_pos used] at value
  have empty := ok.before count small used (decide_eq_false (Nat.lt_irrefl count))
  have here : now.destroyed count = [(dtor, last count)] := by
    rw [destroyed, update_self, empty, value, nil_append]
  have other : ∀ place, place ≠ count → now.destroyed place = data.destroyed place :=
    fun place different => by rw [destroyed, update_of_ne different]
  refine ⟨key ▸ ok.values, key ▸ ok.null, fun _ => key ▸ ⟨values, array⟩, fun freed => ?_,
    fun no => ?_, fun place => ?_, fun place smallPlace usedPlace unpassed => ?_,
    fun place smallPlace usedPlace passed => ?_, fun _ _ no => ?_, fun _ _ no => ?_⟩
  · rw [key, array] at freed
    cases freed
  · rcases no with no | no <;> cases no
  · by_cases same : place = count
    · rw [same, here]
      exact Nat.le_refl 1
    · rw [other place same]
      exact ok.once place
  · have above := Nat.not_le.mp (of_decide_eq_false unpassed)
    rw [other place (Nat.ne_of_gt above)]
    exact ok.before place smallPlace usedPlace
      (decide_eq_false (Nat.not_lt.mpr (Nat.le_of_lt above)))
  · by_cases same : place = count
    · subst same
      intro third isThird _
      obtain rfl := some.inj (destructor.symm.trans isThird)
      exact here
    · rw [other place same]
      exact ok.after place smallPlace usedPlace
        (decide_eq_true (Nat.lt_of_le_of_ne (of_decide_eq_true passed) same))
  · cases no
  · cases no

theorem inside_scan (ok : data.Ok keyData last (.inside count)) :
    data.Ok keyData last (.scan (count + 1)) := by
  refine ok.move rfl rfl (fun key _ _ passed => ?_) (fun key _ _ passed unpassed => ?_)
    (fun _ => ok.array rfl) (fun freed => ?_) (fun no => ?_) (fun _ _ no => ?_)
    fun _ _ no => ?_
  · exact decide_eq_true (Nat.lt_succ_of_le (of_decide_eq_true passed))
  · exact absurd (Nat.le_of_lt_succ (of_decide_eq_true passed)) (of_decide_eq_false unpassed)
  · rcases ok.freed freed with no | no <;> cases no
  · rcases no with no | no <;> cases no
  · cases no
  · cases no

theorem free_key (ok : data.Ok keyData last .freeKey) (key : now.key = .freed)
    (destroyed : now.destroyed = data.destroyed) : now.Ok keyData last .unlink where
  values := fun values no => by
    rw [key] at no
    cases no
  null := fun no => by
    rw [key] at no
    cases no
  array := fun no => absurd no Bool.false_ne_true
  freed := fun _ => .inl rfl
  gone := fun _ => .inr key
  once := destroyed ▸ ok.once
  before := fun _ _ _ no => absurd no.symm Bool.false_ne_true
  after := fun place small used _ => destroyed ▸ ok.after place small used rfl
  testing := fun _ _ no => by cases no
  applying := fun _ _ no => by cases no

theorem unlink (ok : data.Ok keyData last .unlink) : data.Ok keyData last .freeData :=
  ok.move rfl rfl (fun _ _ _ _ => rfl) (fun _ _ _ _ no => absurd no.symm Bool.false_ne_true)
    (fun no => absurd no Bool.false_ne_true) (fun _ => .inr rfl) (fun _ => ok.gone (.inl rfl))
    (fun _ _ no => by cases no) fun _ _ no => by cases no

theorem new (keyData : Nat → PthreadKey) :
    Ok ⟨.null, true, false, false, fun _ => []⟩ keyData (fun _ => 0) .running where
  values := fun _ no => by cases no
  null := fun _ _ _ _ => rfl
  array := fun no => absurd no Bool.false_ne_true
  freed := fun no => by cases no
  gone := fun no => by rcases no with no | no <;> cases no
  once := fun _ => Nat.zero_le 1
  before := fun _ _ _ _ => rfl
  after := fun _ _ _ no => absurd no Bool.false_ne_true
  testing := fun _ _ no => by cases no
  applying := fun _ _ no => by cases no

theorem flags (ok : data.Ok keyData last phase) (key : now.key = data.key)
    (destroyed : now.destroyed = data.destroyed) : now.Ok keyData last phase :=
  ok.move key destroyed (fun _ _ _ passed => passed)
    (fun _ _ _ passed unpassed => absurd (unpassed.symm.trans passed) Bool.false_ne_true)
    ok.array ok.freed ok.gone ok.testing ok.applying

variable {place : Nat}

theorem set {value : Nat} {values : Nat → Nat} (ok : data.Ok keyData last phase)
    (calls : phase.calls = true) (small : place < pthreadKeysMax)
    (used : (keyData place).used = true)
    (before : ∀ key < pthreadKeysMax, values key = if (keyData key).used then last key else 0)
    (careful : value = 0 ∨ (keyData place).destructor = none ∨ phase.passed place = false)
    (key : now.key = .array (update values place value))
    (destroyed : now.destroyed = data.destroyed) :
    now.Ok keyData (update last place value) phase where
  values := fun array isArray other smallOther => by
    obtain rfl := Values.array.inj (key.symm.trans isArray)
    by_cases same : other = place
    · subst same
      rw [update_self, update_self, if_pos used]
    · rw [update_of_ne same, update_of_ne same]
      exact before other smallOther
  null := fun no => by
    rw [key] at no
    cases no
  array := fun _ => ⟨_, key⟩
  freed := fun no => by
    rw [key] at no
    cases no
  gone := fun no => by
    rcases no with no | no
    · rw [no] at calls
      cases calls
    · rw [no] at calls
      cases calls
  once := destroyed ▸ ok.once
  before := destroyed ▸ ok.before
  after := fun other smallOther usedOther passed dtor destructor some_ => by
    rw [destroyed]
    by_cases same : other = place
    · subst same
      rw [update_self] at some_
      rcases careful with zero | none_ | unpassed
      · exact absurd zero some_
      · rw [none_] at destructor
        cases destructor
      · exact absurd (unpassed.symm.trans passed) Bool.false_ne_true
    · rw [update_of_ne same] at some_ ⊢
      exact ok.after other smallOther usedOther passed dtor destructor some_
  testing := fun _ _ same => by
    rw [same] at calls
    cases calls
  applying := fun _ _ same => by
    rw [same] at calls
    cases calls

theorem create {dtor : Option Nat} (ok : data.Ok keyData last phase)
    (unused : (keyData place).used = false) (key : now.key = data.key)
    (destroyed : now.destroyed = update data.destroyed place []) :
    now.Ok (update keyData place ⟨true, dtor⟩) (update last place 0) phase where
  values := fun values array other small => by
    have value := ok.values values (key.symm.trans array) other small
    by_cases same : other = place
    · subst same
      rw [unused, if_neg Bool.false_ne_true] at value
      rw [update_self, update_self, value, ite_self]
    · rwa [update_of_ne same, update_of_ne same]
  null := fun null other small used => by
    by_cases same : other = place
    · rw [same, update_self]
    · rw [update_of_ne same] at used ⊢
      exact ok.null (key.symm.trans null) other small used
  array := key ▸ ok.array
  freed := key ▸ ok.freed
  gone := key ▸ ok.gone
  once := fun other => by
    rw [destroyed]
    by_cases same : other = place
    · rw [same, update_self]
      exact Nat.zero_le 1
    · rw [update_of_ne same]
      exact ok.once other
  before := fun other small used unpassed => by
    rw [destroyed]
    by_cases same : other = place
    · rw [same, update_self]
    · rw [update_of_ne same] at used ⊢
      exact ok.before other small used unpassed
  after := fun other small used passed third destructor some_ => by
    rw [destroyed]
    by_cases same : other = place
    · rw [same, update_self] at some_
      exact absurd rfl some_
    · rw [update_of_ne same] at used destructor some_ ⊢
      rw [update_of_ne same]
      exact ok.after other small used passed third destructor some_
  testing := fun count third same => by
    obtain ⟨small, destructor⟩ := ok.testing count third same
    refine ⟨small, fun used some_ => ?_⟩
    by_cases equal : count = place
    · rw [equal, update_self] at some_
      exact absurd rfl some_
    · rw [update_of_ne equal] at used some_ ⊢
      exact destructor used some_
  applying := fun count third same => by
    obtain ⟨small, used, destructor, some_⟩ := ok.applying count third same
    have different : count ≠ place := fun equal => by
      rw [equal, unused] at used
      cases used
    rw [update_of_ne different, update_of_ne different]
    exact ⟨small, used, destructor, some_⟩

theorem passed_of_taken {key : Nat} (untaken : phase.taken key = false) :
    phase.passed key = false := by
  cases phase with
  | apply count dtor =>
    have above := Nat.not_le.mp (of_decide_eq_false untaken)
    exact decide_eq_false (Nat.not_lt.mpr (Nat.le_of_lt above))
  | _ => exact untaken

theorem delete_of (ok : data.Ok keyData last phase)
    (values : ∀ values, now.key = .array values → ∀ key < pthreadKeysMax,
      values key = if (update keyData place ⟨false, none⟩ key).used then last key else 0)
    (null : now.key = .null ↔ data.key = .null) (freed : now.key = .freed ↔ data.key = .freed)
    (once : (now.destroyed place).length ≤ 1)
    (others : ∀ key, key ≠ place → now.destroyed key = data.destroyed key)
    (untaken : ∀ dtor, phase ≠ .apply place dtor) :
    now.Ok (update keyData place ⟨false, none⟩) last phase where
  values := values
  null := fun isNull key small used => by
    have different : key ≠ place := fun same => by
      rw [same, update_self] at used
      cases used
    rw [update_of_ne different] at used
    exact ok.null (null.mp isNull) key small used
  array := fun scans => by
    obtain ⟨values, array⟩ := ok.array scans
    cases now_ : now.key with
    | null =>
      rw [null.mp now_] at array
      cases array
    | array values => exact ⟨values, rfl⟩
    | freed =>
      rw [freed.mp now_] at array
      cases array
  freed := fun isFreed => ok.freed (freed.mp isFreed)
  gone := fun ended => (ok.gone ended).imp null.mpr freed.mpr
  once := fun key => by
    by_cases same : key = place
    · exact same ▸ once
    · rw [others key same]
      exact ok.once key
  before := fun key small used unpassed => by
    have different : key ≠ place := fun same => by
      rw [same, update_self] at used
      cases used
    rw [update_of_ne different] at used
    rw [others key different]
    exact ok.before key small used unpassed
  after := fun key small used passed dtor destructor some_ => by
    have different : key ≠ place := fun same => by
      rw [same, update_self] at used
      cases used
    rw [update_of_ne different] at used destructor
    rw [others key different]
    exact ok.after key small used passed dtor destructor some_
  testing := fun count dtor same => by
    obtain ⟨small, destructor⟩ := ok.testing count dtor same
    refine ⟨small, fun used some_ => ?_⟩
    have different : count ≠ place := fun equal => by
      rw [equal, update_self] at used
      cases used
    rw [update_of_ne different] at used ⊢
    exact destructor used some_
  applying := fun count dtor same => by
    obtain ⟨small, used, destructor, some_⟩ := ok.applying count dtor same
    have different : count ≠ place := fun equal => untaken dtor (equal ▸ same)
    rw [update_of_ne different]
    exact ⟨small, used, destructor, some_⟩

theorem delete (ok : data.Ok keyData last phase) (small : place < pthreadKeysMax)
    (used : (keyData place).used = true)
    (careful : ∀ values, data.key = .array values → values place ≠ 0 →
      (keyData place).destructor ≠ none → phase.taken place = false)
    (cleared : State.clearKey place (keyData place).destructor data = some now) :
    now.Ok (update keyData place ⟨false, none⟩) last phase := by
  cases array : data.key with
  | null =>
    rw [State.clearKey, array] at cleared
    obtain rfl := some.inj cleared
    refine ok.delete_of (fun values no => ?_) Iff.rfl Iff.rfl (ok.once place) (fun _ _ => rfl)
      fun dtor same => ?_
    · rw [array] at no
      cases no
    · subst same
      obtain ⟨values, no⟩ := ok.array rfl
      rw [array] at no
      cases no
  | freed =>
    rw [State.clearKey, array] at cleared
    cases cleared
  | array values =>
    rw [State.clearKey, array] at cleared
    obtain rfl := some.inj cleared
    have value := ok.values values array place small
    rw [if_pos used] at value
    have zero : ∀ key < pthreadKeysMax, update values place 0 key =
        if (update keyData place ⟨false, none⟩ key).used then last key else 0 :=
      fun key smallKey => by
        by_cases same : key = place
        · rw [same, update_self, update_self, if_neg Bool.false_ne_true]
        · rw [update_of_ne same, update_of_ne same]
          exact ok.values values array key smallKey
    have untaken : ∀ dtor, phase ≠ .apply place dtor := fun dtor same => by
      subst same
      obtain ⟨-, -, destructor, some_⟩ := ok.applying place dtor rfl
      have no := careful values array (by rw [value]; exact some_)
        (by rw [destructor]; exact some_ne_none dtor)
      exact absurd (of_decide_eq_false no) (not_not.mpr (Nat.le_refl place))
    refine ok.delete_of (fun others isArray => ?_) (iff_of_false (fun no => ?_) fun no => ?_)
      (iff_of_false (fun no => ?_) fun no => ?_) ?_ (fun key different => ?_) untaken
    · obtain rfl := Values.array.inj isArray
      exact zero
    · cases no
    · rw [array] at no
      cases no
    · cases no
    · rw [array] at no
      cases no
    · cases destructor : (keyData place).destructor with
      | none => exact ok.once place
      | some dtor =>
        by_cases some_ : values place ≠ 0
        · have unpassed := passed_of_taken (careful values array some_
            (by rw [destructor]; exact some_ne_none dtor))
          dsimp only
          rw [if_pos some_, update_self, ok.before place small used unpassed]
          exact Nat.le_refl 1
        · dsimp only
          rw [if_neg some_]
          exact ok.once place
    · cases (keyData place).destructor with
      | none => rfl
      | some dtor =>
        dsimp only
        split
        · exact update_of_ne different _ _
        · rfl

end PthreadData.Ok

namespace State

variable {state next : State} {id block : Nat} {thread : Thread} {data : PthreadData}

/-- What holds between steps. -/
structure Sound (state : State) : Prop where
  data : ∀ id thread, state.threads id = some thread → thread.phase ≠ .delete →
    ∃ data, state.blocks thread.arg = some data ∧
      data.Ok state.keyData (state.lastSet id) thread.phase
  distinct : ∀ id other thread second, state.threads id = some thread →
    state.threads other = some second → thread.phase ≠ .delete → second.phase ≠ .delete →
    thread.arg = second.arg → id = other
  nodup : state.list.Nodup
  listed : ∀ block, block ∈ state.list ↔
    ∃ id thread, state.threads id = some thread ∧ thread.arg = block ∧ thread.phase.lives = true
  count : state.keyCount = (List.range pthreadKeysMax).countP fun key => (state.keyData key).used

variable {phase : Phase}

theorem ne_delete_of_lives (lives : phase.lives = true) : phase ≠ .delete := fun deleted => by
    rw [deleted] at lives
    cases lives

variable {now : PthreadData}

section

variable (sound : state.Sound)
include sound

theorem Sound.setThread {changed : Thread} {last : Nat → Nat → Nat}
    (here : state.threads id = some thread) (open_ : thread.phase ≠ .delete)
    (arg : changed.arg = thread.arg) (lives : changed.phase.lives = thread.phase.lives)
    (others : ∀ other, other ≠ id → last other = state.lastSet other)
    (ok : now.Ok state.keyData (last id) changed.phase) :
    Sound { state.setThread id changed now with lastSet := last } := by
  have new : update state.threads id (some changed) id = some changed := update_self ..
  have old : ∀ other, other ≠ id →
      update state.threads id (some changed) other = state.threads other :=
    fun other different => update_of_ne different _ _
  have back : ∀ other second, update state.threads id (some changed) other = some second →
      second.phase ≠ .delete → ∃ first, state.threads other = some first ∧
        first.arg = second.arg ∧ first.phase ≠ .delete := fun other second found stays => by
    by_cases same : other = id
    · subst same
      obtain rfl := some.inj (new.symm.trans found)
      exact ⟨thread, here, arg.symm, open_⟩
    · exact ⟨second, (old other same).symm.trans found, rfl, stays⟩
  refine ⟨fun other second found stays => ?_, fun first other second third isFirst isOther
    staysFirst staysOther sameArg => ?_, sound.nodup, fun block => ?_, sound.count⟩
  · by_cases same : other = id
    · subst same
      obtain rfl := some.inj (new.symm.trans found)
      exact ⟨now, update_self .., ok⟩
    have foundOld := (old other same).symm.trans found
    obtain ⟨data, stored, okOther⟩ := sound.data other second foundOld stays
    have different : second.arg ≠ changed.arg := fun equal => same
      (sound.distinct other id second thread foundOld here stays open_ (equal.trans arg))
    refine ⟨data, (update_of_ne different _ _).trans stored, ?_⟩
    dsimp only
    rw [others other same]
    exact okOther
  · obtain ⟨firstOld, isFirstOld, argFirst, openFirst⟩ := back first second isFirst staysFirst
    obtain ⟨otherOld, isOtherOld, argOther, openOther⟩ := back other third isOther staysOther
    exact sound.distinct first other firstOld otherOld isFirstOld isOtherOld openFirst openOther
      (by rw [argFirst, argOther, sameArg])
  · refine (sound.listed block).trans ⟨?_, ?_⟩
    · rintro ⟨other, second, found, isBlock, inList⟩
      by_cases same : other = id
      · subst same
        obtain rfl := some.inj (here.symm.trans found)
        exact ⟨other, changed, new, arg.trans isBlock, lives.trans inList⟩
      · exact ⟨other, second, (old other same).trans found, isBlock, inList⟩
    · rintro ⟨other, second, found, isBlock, inList⟩
      by_cases same : other = id
      · subst same
        obtain rfl := some.inj (new.symm.trans found)
        exact ⟨other, thread, here, arg.symm.trans isBlock, lives.symm.trans inList⟩
      · exact ⟨other, second, (old other same).symm.trans found, isBlock, inList⟩

theorem Sound.touch (found : state.blocks block = some data)
    (key : now.key = data.key) (destroyed : now.destroyed = data.destroyed) :
    Sound { state with blocks := update state.blocks block (some now) } where
  data := fun id thread here open_ => by
    obtain ⟨stored, foundStored, ok⟩ := sound.data id thread here open_
    by_cases same : thread.arg = block
    · rw [same] at foundStored ⊢
      obtain rfl := some.inj (found.symm.trans foundStored)
      exact ⟨now, update_self .., ok.flags key destroyed⟩
    · exact ⟨stored, (update_of_ne same _ _).trans foundStored, ok⟩
  distinct := sound.distinct
  nodup := sound.nodup
  listed := sound.listed
  count := sound.count

theorem Sound.cancel {suspends : Bool} (here : state.threads id = some thread)
    (careful : ∀ data, state.dataOf thread = some data →
      ¬(data.cancelEnabled = true ∧ data.cancelAsynchronous = true ∧ suspends = true))
    (result : state.pthreadCancel id thread suspends = some next) : next.Sound := by
  obtain ⟨data, found, rfl⟩ := map_eq_some_iff.mp result
  have touched : ∀ now : PthreadData, now.key = data.key → now.destroyed = data.destroyed →
      (state.setThread id thread now).Sound := fun now key destroyed => by
    have kept := sound.touch found key destroyed
    rw [State.setThread, ← here, Function.update_eq_self]
    exact kept
  dsimp only
  split
  · rename_i asynchronous
    split
    · rename_i suspended
      exact absurd ⟨asynchronous.1, asynchronous.2, suspended⟩ (careful data found)
    · exact touched _ rfl rfl
  · exact touched _ rfl rfl

theorem Sound.create {granted : Option (Nat × Nat)}
    (result : state.pthreadCreate granted = some next) : next.Sound := by
  cases granted with
  | none => exact some.inj result ▸ sound
  | some pair =>
    obtain ⟨id, block⟩ := pair
    obtain ⟨free, result⟩ := ite_none_left_eq_some.mp result
    obtain rfl := some.inj result
    obtain ⟨fresh, freshBlock⟩ : state.threads id = none ∧ state.blocks block = none := by
      simpa using free
    have new : update state.threads id (some ⟨block, .running⟩) id =
        some ⟨block, .running⟩ := update_self ..
    have old : ∀ other, other ≠ id →
        update state.threads id (some ⟨block, .running⟩) other = state.threads other :=
      fun other different => update_of_ne different _ _
    have unknown : ∀ other thread, state.threads other = some thread → thread.phase ≠ .delete →
        thread.arg ≠ block := fun other thread found open_ same => by
      obtain ⟨data, stored, -⟩ := sound.data other thread found open_
      rw [same, freshBlock] at stored
      cases stored
    refine ⟨fun other thread found open_ => ?_, fun first other thread second isFirst isSecond
      openFirst openSecond sameArg => ?_, ?_, fun other => ?_, sound.count⟩
    · by_cases same : other = id
      · subst same
        obtain rfl := some.inj (new.symm.trans found)
        refine ⟨_, update_self .., ?_⟩
        dsimp only
        rw [update_self]
        exact .new state.keyData
      · have foundOld := (old other same).symm.trans found
        obtain ⟨data, stored, ok⟩ := sound.data other thread foundOld open_
        refine ⟨data, (update_of_ne (unknown other thread foundOld open_) _ _).trans stored, ?_⟩
        dsimp only
        rw [update_of_ne same]
        exact ok
    · by_cases sameFirst : first = id <;> by_cases sameSecond : other = id
      · rw [sameFirst, sameSecond]
      · subst sameFirst
        obtain rfl := some.inj (new.symm.trans isFirst)
        exact absurd sameArg.symm
          (unknown other second ((old other sameSecond).symm.trans isSecond) openSecond)
      · subst sameSecond
        obtain rfl := some.inj (new.symm.trans isSecond)
        exact absurd sameArg
          (unknown first thread ((old first sameFirst).symm.trans isFirst) openFirst)
      · exact sound.distinct first other thread second ((old first sameFirst).symm.trans isFirst)
          ((old other sameSecond).symm.trans isSecond) openFirst openSecond sameArg
    · refine nodup_cons.mpr ⟨fun member => ?_, sound.nodup⟩
      obtain ⟨other, thread, found, same, lives⟩ := (sound.listed block).mp member
      exact unknown other thread found (ne_delete_of_lives lives) same
    · refine mem_cons.trans ⟨?_, ?_⟩
      · rintro (rfl | member)
        · exact ⟨id, _, new, rfl, rfl⟩
        · obtain ⟨owner, thread, found, same, lives⟩ := (sound.listed other).mp member
          have different : owner ≠ id := fun equal => by
            rw [equal, fresh] at found
            cases found
          exact ⟨owner, thread, (old owner different).trans found, same, lives⟩
      · rintro ⟨owner, thread, found, same, lives⟩
        by_cases equal : owner = id
        · subst equal
          obtain rfl := some.inj (new.symm.trans found)
          exact .inl same.symm
        · exact .inr ((sound.listed other).mpr
            ⟨owner, thread, (old owner equal).symm.trans found, same, lives⟩)

section

variable (here : state.threads id = some thread)
include here

theorem Sound.unlink (phase : thread.phase = .unlink) (found : state.dataOf thread = some data) :
    Sound { state.setThread id { thread with phase := .freeData } data with
        list := state.list.erase thread.arg } := by
  have open_ : thread.phase ≠ .delete := by rw [phase]; exact nofun
  obtain ⟨again, foundAgain, ok⟩ := sound.data id thread here open_
  obtain rfl := some.inj (found.symm.trans foundAgain)
  rw [phase] at ok
  have new : update state.threads id (some { thread with phase := .freeData }) id =
      some { thread with phase := .freeData } := update_self ..
  have old : ∀ other, other ≠ id →
      update state.threads id (some { thread with phase := .freeData }) other =
        state.threads other := fun other different => update_of_ne different _ _
  have same : update state.blocks thread.arg (some data) = state.blocks := by
    rw [← show state.blocks thread.arg = some data from found, Function.update_eq_self]
  have back : ∀ other second,
      update state.threads id (some { thread with phase := .freeData }) other =
        some second → second.phase ≠ .delete → ∃ first, state.threads other = some first ∧
        first.arg = second.arg ∧ first.phase ≠ .delete := fun other second isSecond stays => by
    by_cases equal : other = id
    · subst equal
      obtain rfl := some.inj (new.symm.trans isSecond)
      exact ⟨thread, here, rfl, open_⟩
    · exact ⟨second, (old other equal).symm.trans isSecond, rfl, stays⟩
  refine ⟨fun other second isSecond stays => ?_, fun first other second third isFirst isOther
    staysFirst staysOther sameArg => ?_, sound.nodup.erase _, fun block => ?_, sound.count⟩
  · by_cases equal : other = id
    · subst equal
      obtain rfl := some.inj (new.symm.trans isSecond)
      exact ⟨data, update_self .., ok.unlink⟩
    obtain ⟨now, stored, okNow⟩ :=
      sound.data other second ((old other equal).symm.trans isSecond) stays
    refine ⟨now, ?_, okNow⟩
    exact (congrFun same second.arg).trans stored
  · obtain ⟨firstOld, isFirstOld, argFirst, openFirst⟩ := back first second isFirst staysFirst
    obtain ⟨otherOld, isOtherOld, argOther, openOther⟩ := back other third isOther staysOther
    exact sound.distinct first other firstOld otherOld isFirstOld isOtherOld openFirst openOther
      (by rw [argFirst, argOther, sameArg])
  · rw [sound.nodup.mem_erase_iff, sound.listed]
    refine ⟨?_, ?_⟩
    · rintro ⟨apart, other, second, isSecond, isBlock, inList⟩
      have different : other ≠ id := fun equal => by
        subst equal
        obtain rfl := some.inj (here.symm.trans isSecond)
        exact apart isBlock.symm
      exact ⟨other, second, (old other different).trans isSecond, isBlock, inList⟩
    · rintro ⟨other, second, isSecond, isBlock, inList⟩
      have different : other ≠ id := fun equal => by
        subst equal
        obtain rfl := some.inj (new.symm.trans isSecond)
        cases inList
      have isOld := (old other different).symm.trans isSecond
      refine ⟨fun equal => different ?_, other, second, isOld, isBlock, inList⟩
      exact sound.distinct other id second thread isOld here (ne_delete_of_lives inList) open_
        (isBlock.trans equal)

theorem Sound.freeData (phase : thread.phase = .freeData) : Sound { state with
        threads := update state.threads id (some { thread with phase := .delete })
        blocks := update state.blocks thread.arg none } := by
  have open_ : thread.phase ≠ .delete := by rw [phase]; exact nofun
  have old : ∀ other second, update state.threads id (some { thread with phase := .delete }) other =
        some second → second.phase ≠ .delete → other ≠ id ∧ state.threads other = some second :=
    fun other second isSecond stays => by
      by_cases equal : other = id
      · subst equal
        rw [update_self] at isSecond
        obtain rfl := some.inj isSecond
        exact absurd rfl stays
      · exact ⟨equal, (update_of_ne equal _ _).symm.trans isSecond⟩
  refine ⟨fun other second isSecond stays => ?_, fun first other second third isFirst isOther
    staysFirst staysOther => ?_, sound.nodup, fun block => ?_, sound.count⟩
  · obtain ⟨different, isOld⟩ := old other second isSecond stays
    obtain ⟨now, stored, ok⟩ := sound.data other second isOld stays
    have apart : second.arg ≠ thread.arg := fun equal =>
      different (sound.distinct other id second thread isOld here stays open_ equal)
    exact ⟨now, (update_of_ne apart _ _).trans stored, ok⟩
  · exact sound.distinct first other second third (old first second isFirst staysFirst).2
      (old other third isOther staysOther).2 staysFirst staysOther
  · refine (sound.listed block).trans ⟨?_, ?_⟩
    · rintro ⟨other, second, isSecond, isBlock, inList⟩
      have different : other ≠ id := fun equal => by
        subst equal
        obtain rfl := some.inj (here.symm.trans isSecond)
        rw [phase] at inList
        cases inList
      exact ⟨other, second, (update_of_ne different _ _).trans isSecond, isBlock, inList⟩
    · rintro ⟨other, second, isSecond, isBlock, inList⟩
      exact ⟨other, second, (old other second isSecond (ne_delete_of_lives inList)).2, isBlock,
        inList⟩

theorem Sound.taskDelete (phase : thread.phase = .delete) : (state.taskDelete id).Sound := by
  have old : ∀ other second, update state.threads id none other = some second →
      other ≠ id ∧ state.threads other = some second := fun other second isSecond => by
    by_cases equal : other = id
    · rw [equal, update_self] at isSecond
      cases isSecond
    · exact ⟨equal, (update_of_ne equal _ _).symm.trans isSecond⟩
  refine ⟨fun other second isSecond => sound.data other second (old other second isSecond).2,
    fun first other second third isFirst isOther => sound.distinct first other second third
      (old first second isFirst).2 (old other third isOther).2, sound.nodup, fun block => ?_,
    sound.count⟩
  refine (sound.listed block).trans ⟨?_, ?_⟩
  · rintro ⟨other, second, isSecond, isBlock, inList⟩
    have different : other ≠ id := fun equal => by
      subst equal
      obtain rfl := some.inj (here.symm.trans isSecond)
      exact ne_delete_of_lives inList phase
    exact ⟨other, second, (update_of_ne different _ _).trans isSecond, isBlock, inList⟩
  · rintro ⟨other, second, isSecond, isBlock, inList⟩
    exact ⟨other, second, (old other second isSecond).2, isBlock, inList⟩

theorem Sound.goesOn {changed : Thread} (open_ : thread.phase ≠ .delete)
    (arg : changed.arg = thread.arg) (lives : changed.phase.lives = thread.phase.lives)
    (ok : now.Ok state.keyData (state.lastSet id) changed.phase) :
    (state.setThread id changed now).Sound :=
  sound.setThread here open_ arg lives (fun _ _ => rfl) ok

theorem Sound.exitStep (found : state.dataOf thread = some data)
    (result : state.exitStep id thread data = some next) : next.Sound := by
  have open_ : thread.phase ≠ .delete := fun phase => by
    rw [State.exitStep, phase] at result
    cases result
  obtain ⟨again, foundAgain, ok⟩ := sound.data id thread here open_
  obtain rfl := some.inj (found.symm.trans foundAgain)
  unfold State.exitStep at result
  cases phase : thread.phase with
  | running =>
    rw [phase] at result
    cases result
  | scan count =>
    rw [phase] at result ok
    obtain rfl := some.inj result
    cases place : state.nextKey count with
    | none =>
      have none_ : ∀ key < pthreadKeysMax, (state.keyData key).used = true → key < count :=
        fun key small used => by
          have passed := List.find?_eq_none.mp place key (mem_range.mpr small)
          rw [used, Bool.and_true] at passed
          exact Nat.not_le.mp fun above => passed (decide_eq_true above)
      exact sound.goesOn here open_ rfl (by rw [phase]; rfl) (ok.scan_end none_)
    | some key =>
      obtain ⟨test, member, before⟩ := List.find?_range_eq_some.mp place
      obtain ⟨later, -⟩ := (Bool.and_eq_true _ _).mp test
      refine sound.goesOn here open_ rfl (by rw [phase]; rfl)
        (ok.scan_next (mem_range.mp member) (of_decide_eq_true later)
          fun other above below => ?_)
      have unused := before other below
      rw [decide_eq_true above] at unused
      exact Bool.not_eq_true' _ ▸ unused
  | test count dtor =>
    rw [phase] at result ok
    cases dtor with
    | none =>
      obtain rfl := some.inj result
      refine sound.goesOn here open_ rfl (by rw [phase]; rfl) (ok.test_skip fun used => ?_)
      by_cases zero : state.lastSet id count = 0
      · exact .inr zero
      · exact .inl ((ok.testing count none rfl).2 used zero)
    | some dtor =>
      obtain ⟨values, array⟩ := ok.array rfl
      rw [array] at result
      obtain rfl := some.inj result
      by_cases some_ : values count ≠ 0
      · rw [if_pos some_]
        exact sound.goesOn here open_ rfl (by rw [phase]; rfl) (ok.test_apply array some_)
      rw [if_neg some_]
      refine sound.goesOn here open_ rfl (by rw [phase]; rfl) (ok.test_skip fun used => .inr ?_)
      have value := ok.values values array count (ok.testing count _ rfl).1
      rw [if_pos used] at value
      exact value.symm.trans (not_not.mp some_)
  | apply count dtor =>
    rw [phase] at result ok
    obtain ⟨values, array⟩ := ok.array rfl
    rw [array] at result
    obtain rfl := some.inj result
    exact sound.goesOn here open_ rfl (by rw [phase]; rfl) (ok.apply_inside array array.symm rfl)
  | inside count =>
    rw [phase] at result ok
    obtain rfl := some.inj result
    exact sound.goesOn here open_ rfl (by rw [phase]; rfl) ok.inside_scan
  | freeKey =>
    rw [phase] at result ok
    obtain rfl := some.inj result
    exact sound.goesOn here open_ rfl (by rw [phase]; rfl) (ok.free_key rfl rfl)
  | unlink =>
    rw [phase] at result
    obtain rfl := some.inj result
    exact sound.unlink here phase found
  | freeData =>
    rw [phase] at result
    obtain rfl := some.inj result
    exact sound.freeData here phase
  | delete => exact absurd phase open_

theorem Sound.exit (found : state.dataOf thread = some data) (phase : thread.phase = .running) :
    (state.pthreadExit id thread data).Sound := by
  have open_ : thread.phase ≠ .delete := by rw [phase]; exact nofun
  obtain ⟨again, foundAgain, ok⟩ := sound.data id thread here open_
  obtain rfl := some.inj (found.symm.trans foundAgain)
  rw [phase] at ok
  unfold State.pthreadExit
  cases array : data.key with
  | null =>
    exact sound.goesOn here open_ rfl (by rw [phase]; rfl) (ok.exit_null array array.symm rfl)
  | array values =>
    exact sound.goesOn here open_ rfl (by rw [phase]; rfl)
      (ok.exit_array (by rw [array]; exact Values.noConfusion) array.symm rfl)
  | freed =>
    exact sound.goesOn here open_ rfl (by rw [phase]; rfl)
      (ok.exit_array (by rw [array]; exact Values.noConfusion) array.symm rfl)

end

end

variable {key : Nat}

theorem Sound.setspecific {value : Nat} {memory : Bool} (sound : state.Sound)
    (here : state.threads id = some thread) (found : state.dataOf thread = some data)
    (calls : thread.phase.calls = true)
    (careful : value = 0 ∨ (state.keyData key).destructor = none ∨ thread.phase.passed key = false)
    (result : state.pthreadSetspecific id thread data key value memory = some next) :
    next.Sound := by
  have open_ : thread.phase ≠ .delete := fun deleted => by
    rw [deleted] at calls
    cases calls
  obtain ⟨again, foundAgain, ok⟩ := sound.data id thread here open_
  obtain rfl := some.inj (found.symm.trans foundAgain)
  have sets : ∀ values : Nat → Nat, key < pthreadKeysMax → (state.keyData key).used = true →
      (∀ other < pthreadKeysMax, values other =
        if (state.keyData other).used then state.lastSet id other else 0) →
      Sound { state.setThread id thread { data with key := .array (update values key value) } with
          lastSet := update state.lastSet id (update (state.lastSet id) key value) } :=
    fun values small used before => by
      refine sound.setThread here open_ rfl rfl
        (fun other different => update_of_ne different _ _) ?_
      rw [update_self]
      exact ok.set calls small used before careful rfl rfl
  unfold State.pthreadSetspecific at result
  by_cases large : pthreadKeysMax ≤ key
  · rw [if_pos large] at result
    exact some.inj result ▸ sound
  rw [if_neg large] at result
  have small := Nat.not_le.mp large
  cases used : (state.keyData key).used with
  | false =>
    rw [used, if_pos rfl] at result
    cases array : data.key with
    | null =>
      rw [array] at result
      rw [ite_self] at result
      exact some.inj result ▸ sound
    | freed =>
      rw [array] at result
      cases result
    | array values =>
      rw [array] at result
      exact some.inj result ▸ sound
  | true =>
    rw [used] at result
    cases array : data.key with
    | null =>
      rw [array] at result
      cases memory with
      | false =>
        exact some.inj result ▸ sound
      | true =>
        obtain rfl := some.inj result
        refine sets _ small used fun other smallOther => ?_
        split
        · exact (ok.null array other smallOther (by assumption)).symm
        · rfl
    | freed =>
      rw [array] at result
      cases result
    | array values =>
      rw [array] at result
      obtain rfl := some.inj result
      exact sets values small used (ok.values values array)

/-! ### Keys -/

theorem Sound.keyCreate {dtor : Option Nat} (sound : state.Sound) :
    (state.pthreadKeyCreate dtor).Sound := by
  unfold State.pthreadKeyCreate
  split
  · exact sound
  rename_i room
  have few : (List.range pthreadKeysMax).countP (fun key => (state.keyData key).used) <
      pthreadKeysMax := sound.count ▸ Nat.not_le.mp room
  obtain ⟨place, first, inside, unused⟩ := find?_range_of_countP_lt few (Nat.le_refl _)
  have counted : (List.range pthreadKeysMax).countP
        (fun key => (update state.keyData place ⟨true, dtor⟩ key).used) =
      (List.range pthreadKeysMax).countP (fun key => (state.keyData key).used) +
        if (update state.keyData place ⟨true, dtor⟩ place).used then 1 else 0 :=
    countP_range_of_update inside unused fun index different => by
      rw [update_of_ne different]
  rw [update_self, ← sound.count] at counted
  rw [first, getD_some]
  refine ⟨fun id thread here open_ => ?_, sound.distinct, sound.nodup, sound.listed, counted.symm⟩
  obtain ⟨data, found, ok⟩ := sound.data id thread here open_
  refine ⟨{ data with destroyed := update data.destroyed place [] }, ?_, ok.create unused rfl rfl⟩
  dsimp only
  rw [found, map_some]

/-- The walk clears each block of the list, and no other. -/
theorem clearList_spec {destructor : Option Nat} {list : List Nat}
    {blocks after : Nat → Option PthreadData} (nodup : list.Nodup)
    (result : clearList key destructor list blocks = some after) :
    (∀ block, block ∉ list → after block = blocks block) ∧
      ∀ block ∈ list, ∃ data now, blocks block = some data ∧
        clearKey key destructor data = some now ∧ after block = some now := by
  induction list generalizing blocks with
  | nil =>
    obtain rfl := some.inj result
    exact ⟨fun _ _ => rfl, fun _ no => absurd no not_mem_nil⟩
  | cons first rest hypothesis =>
    obtain ⟨data, found, result⟩ := bind_eq_some_iff.mp result
    obtain ⟨now, cleared, result⟩ := bind_eq_some_iff.mp result
    obtain ⟨apart, nodup⟩ := nodup_cons.mp nodup
    obtain ⟨off, on⟩ := hypothesis nodup result
    refine ⟨fun block outside => ?_, fun block member => ?_⟩
    · obtain ⟨different, outside⟩ := not_or.mp (mt mem_cons.mpr outside)
      exact (off block outside).trans (update_of_ne different _ _)
    · rcases mem_cons.mp member with rfl | member
      · exact ⟨data, now, found, cleared, (off block apart).trans (update_self ..)⟩
      obtain ⟨old, again, isOld, clearedOld, isAgain⟩ := on block member
      have different : block ≠ first := fun same => apart (same ▸ member)
      exact ⟨old, again, (update_of_ne different _ _).symm.trans isOld, clearedOld, isAgain⟩

theorem Sound.keyDelete (sound : state.Sound)
    (careful : ∀ other thread data, state.threads other = some thread →
      thread.phase.lives = true → state.dataOf thread = some data →
      ∀ values, data.key = .array values → values key ≠ 0 →
        (state.keyData key).destructor ≠ none → thread.phase.taken key = false)
    (result : state.pthreadKeyDelete key = some next) : next.Sound := by
  unfold State.pthreadKeyDelete at result
  by_cases large : pthreadKeysMax ≤ key
  · rw [if_pos large] at result
    exact some.inj result ▸ sound
  rw [if_neg large] at result
  by_cases idle : state.keyCount = 0 ∨ (state.keyData key).used = false
  · rw [if_pos idle] at result
    exact some.inj result ▸ sound
  rw [if_neg idle] at result
  have small := Nat.not_le.mp large
  have used : (state.keyData key).used = true :=
    (Bool.not_eq_false _).mp fun unused => idle (.inr unused)
  obtain ⟨after, walked, rfl⟩ := map_eq_some_iff.mp result
  obtain ⟨off, on⟩ := clearList_spec sound.nodup walked
  refine ⟨fun id thread here open_ => ?_, sound.distinct, sound.nodup, sound.listed, ?_⟩
  · obtain ⟨data, found, ok⟩ := sound.data id thread here open_
    by_cases lives : thread.phase.lives = true
    · have member := (sound.listed thread.arg).mpr ⟨id, thread, here, rfl, lives⟩
      obtain ⟨old, now, isOld, cleared, isNow⟩ := on thread.arg member
      obtain rfl := some.inj (found.symm.trans isOld)
      exact ⟨now, isNow, ok.delete small used (careful id thread data here lives found) cleared⟩
    · have outside : thread.arg ∉ state.list := fun member => by
        obtain ⟨other, second, isSecond, same, livesSecond⟩ := (sound.listed thread.arg).mp member
        have equal := sound.distinct other id second thread isSecond here
          (ne_delete_of_lives livesSecond) open_ same
        subst equal
        obtain rfl := some.inj (here.symm.trans isSecond)
        exact lives livesSecond
      have phase : thread.phase = .freeData := by
        cases phase : thread.phase with
        | freeData => rfl
        | delete => exact absurd phase open_
        | _ =>
          rw [phase] at lives
          exact absurd rfl lives
      refine ⟨data, (off thread.arg outside).trans found, ok.delete_of (fun values array => ?_)
        Iff.rfl Iff.rfl (ok.once key) (fun _ _ => rfl) fun dtor apply => ?_⟩
      · rcases ok.gone (.inr phase) with no | no
        · rw [array] at no
          cases no
        · rw [array] at no
          cases no
      · rw [phase] at apply
        cases apply
  · have counted : (List.range pthreadKeysMax).countP (fun place => (state.keyData place).used) =
        (List.range pthreadKeysMax).countP
            (fun place => (update state.keyData key ⟨false, none⟩ place).used) +
          if (state.keyData key).used then 1 else 0 :=
      countP_range_of_update small (by rw [update_self]) fun index different => by
        rw [update_of_ne different]
    rw [used, if_pos rfl, ← sound.count] at counted
    rw [counted, Nat.add_sub_cancel]

/-! ### Every step -/

theorem PthreadData.Ok.intact {keyData : Nat → PthreadKey} {last : Nat → Nat}
    (ok : data.Ok keyData last phase) (calls : phase.calls = true) : data.key ≠ .freed :=
  fun freed => by
    rcases ok.freed freed with rfl | rfl
    · cases calls
    · cases calls

theorem ne_delete_of_calls (calls : phase.calls = true) : phase ≠ .delete := fun deleted => by
    rw [deleted] at calls
    cases calls

theorem Sound.own {call : Own} (sound : state.Sound) (here : state.threads id = some thread)
    (calls : thread.phase.calls = true) (found : state.dataOf thread = some data)
    (careful : state.careful (.own id call)) (result : state.own id thread data call = some next) :
    next.Sound := by
  have open_ := ne_delete_of_calls calls
  have careful := careful thread here
  obtain ⟨again, foundAgain, ok⟩ := sound.data id thread here open_
  obtain rfl := some.inj (found.symm.trans foundAgain)
  cases call with
  | exit => exact some.inj result ▸ sound.exit here found careful
  | keyCreate dtor => exact some.inj result ▸ sound.keyCreate
  | keyDelete key =>
    exact sound.keyDelete (fun other second data isSecond lives stored =>
      (careful other second data isSecond lives stored).1) result
  | setspecific key value memory => exact sound.setspecific here found calls careful result
  | getspecific key =>
    obtain ⟨value, -, same⟩ := map_eq_some_iff.mp result
    exact same ▸ sound
  | setcancelstate enabled =>
    exact some.inj result ▸ sound.goesOn here open_ rfl rfl (ok.flags rfl rfl)
  | setcanceltype asynchronous =>
    exact some.inj result ▸ sound.goesOn here open_ rfl rfl (ok.flags rfl rfl)

theorem Sound.step {action : Action} (sound : state.Sound) (careful : state.careful action)
    (result : ThreadData.step state action = some next) : next.Sound := by
  cases action with
  | create granted => exact sound.create result
  | cancel id suspends =>
    obtain ⟨thread, here, result⟩ := bind_eq_some_iff.mp result
    exact sound.cancel here (fun data => careful thread data here) result
  | own id call =>
    obtain ⟨thread, here, result⟩ := bind_eq_some_iff.mp result
    obtain ⟨calls, result⟩ := ite_none_right_eq_some.mp result
    obtain ⟨data, found, result⟩ := bind_eq_some_iff.mp result
    exact sound.own here calls found careful result
  | exitStep id =>
    obtain ⟨thread, here, result⟩ := bind_eq_some_iff.mp result
    by_cases phase : thread.phase = .delete
    · rw [if_pos phase] at result
      exact some.inj result ▸ sound.taskDelete here phase
    · rw [if_neg phase] at result
      obtain ⟨data, found, result⟩ := bind_eq_some_iff.mp result
      exact sound.exitStep here found result

theorem Sound.initial : ThreadData.initial.Sound where
  data := fun _ _ no => by cases no
  distinct := fun _ _ _ _ no => by cases no
  nodup := nodup_nil
  listed := fun block =>
    iff_of_false not_mem_nil fun ⟨_, _, no, _, _⟩ => by cases no
  count := (countP_eq_zero.mpr fun _ _ => Bool.false_ne_true).symm

end State

theorem sound_of_reachable (state : State)
    (reached : Reachable step State.careful (· = initial) state) : state.Sound :=
  reached.invariant (fun _ start => by rw [start]; exact State.Sound.initial)
    fun _ _ _ _ sound careful result => sound.step careful result

end TowerSafe.ThreadData
