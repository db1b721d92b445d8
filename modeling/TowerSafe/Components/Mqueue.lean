/-
This file embeds the table of message queues of `mqueue.c`: its slots with their names, their kernel
queues and their lists of descriptors, and the calls that open, close and unlink. In every run of
careful calls a slot is in use exactly when its kernel queue exists, every descriptor is on the list
of its slot, and a slot goes when it is unlinked and has no descriptor left.
-/

import TowerSafe.Library.Transition
import TowerSafe.Library.Bytes
import Mathlib.Data.List.Nodup
import Mathlib.Logic.Function.Basic

namespace TowerSafe.Mqueue

open Library List Option Bool
open Function (update update_self update_of_ne)

/-! ### The table -/

def pathMax : Nat := 256

def mqUseMagic : Nat := 0x89abcdef

def mqMaxMsgNum : Int := 16

def mqMaxMsgLen : Int := 64

/-- `USHRT_MAX`, which is also `OS_NULL_SHORT`. -/
def ushrtMax : Nat := 65535

def oCreat : BitVec 32 := 0x40

def oExcl : BitVec 32 := 0x80

def fnonblock : BitVec 32 := 0x800

inductive Errno
  | EINVAL
  | ENAMETOOLONG
  | ENOENT
  | EEXIST
  | ENOMEM
  | ENOSPC
  | ENFILE
  | EBADF
  | EFAULT
  | EAGAIN
  | EINTR
  deriving DecidableEq

/-- The fields of `struct mq_attr` that are read. -/
structure MqAttr where
  mqFlags : BitVec 32
  mqMaxmsg : Int
  mqMsgsize : Int
  deriving DecidableEq

/-- The fields of `struct mqarray` that are used. The kernel queue is given by its place, and the
list of descriptors by their addresses. -/
structure Mqarray where
  mqId : Nat
  unlinkflag : Bool
  mqName : Option Bytes
  mqcb : Option Nat
  mqPersonal : List Nat
  deriving DecidableEq

/-- The fields of `struct mqpersonal` that are used. The link to the next one is in the list of the
slot. -/
structure Mqpersonal where
  mqPosixdes : Nat
  mqFlags : BitVec 32
  mqStatus : Nat
  deriving DecidableEq

/-- The table, the descriptors that are allocated, and of the kernel queues the free list and which
of them are `OS_QUEUE_INUSED`. -/
structure Mqueues where
  table : Nat → Mqarray
  heap : Nat → Option Mqpersonal
  freeQueues : List Nat
  inUsed : Nat → Bool

/-- What `LOS_QueueDelete` finds of a queue that exists: nobody uses it, and its memory is freed or
not; or tasks are in it. -/
inductive Deletion
  | freed
  | unfreed
  | inUse
  deriving DecidableEq

/-- What is granted to `mq_open`: memory for the messages and for the name, an address for the
descriptor, and how the queue is deleted if it has to be. -/
structure Granting where
  queueMemory : Bool
  nameMemory : Bool
  personal : Option Nat
  deletion : Deletion
  deriving DecidableEq

def getQueueIndex (queueID : Nat) : Nat := queueID % 2 ^ 16

def Mqarray.inUse (entry : Mqarray) : Bool := entry.mqcb.isSome

def mqNameCheck : Option Bytes → Except Errno Bytes
  | none => .error .EINVAL
  | some name =>
      if name.length = 0 then .error .EINVAL
      else if pathMax - 1 < name.length then .error .ENAMETOOLONG
      else .ok name

namespace Mqueues

def setSlot (state : Mqueues) (slot : Nat) (entry : Mqarray) : Mqueues :=
  { state with table := update state.table slot entry }

/-- `LOS_QueueCreate`, with the errors of `MapMqErrno`. -/
def losQueueCreate (state : Mqueues) (len maxMsgSize : Nat) (memory : Bool) :
    Except Errno Nat × Mqueues :=
  if ushrtMax - 4 < maxMsgSize then (.error .EINVAL, state)
  else if len = 0 ∨ maxMsgSize = 0 then (.error .EINVAL, state)
  else if (2 ^ 32 - 1) / (maxMsgSize + 4) < len then (.error .EINVAL, state)
  else if memory = false then (.error .ENOSPC, state)
  else
    match state.freeQueues with
    | [] => (.error .ENFILE, state)
    | queueID :: rest =>
        (.ok queueID,
          { state with
            freeQueues := rest
            inUsed := update state.inUsed queueID true })

/-- `LOS_QueueDelete`, with the errors of `DoMqueueDelete`. -/
def losQueueDelete (limit : Nat) (state : Mqueues) (queueID : Nat) (deletion : Deletion) :
    Except Errno Unit × Mqueues :=
  if limit ≤ queueID then (.error .EAGAIN, state)
  else if state.inUsed queueID = false then (.error .EAGAIN, state)
  else
    match deletion with
    | .inUse => (.error .EAGAIN, state)
    | .freed | .unfreed =>
        (if deletion = .freed then .ok () else .error .EINVAL,
          { state with
            freeQueues := queueID :: state.freeQueues
            inUsed := update state.inUsed queueID false })

def getMqueueCBByName (limit : Nat) (state : Mqueues) (name : Bytes) : Option Nat :=
  (List.range limit).find? fun slot => (state.table slot).mqName == some name

def doMqueueDelete (limit : Nat) (state : Mqueues) (slot : Nat) (deletion : Deletion) :
    Except Errno Unit × Mqueues :=
  let entry := state.table slot
  (state.setSlot slot { entry with mqName := none, mqcb := none }).losQueueDelete limit entry.mqId
    deletion

/-- `DoMqueueCreate`, with the address of the descriptor. `strncpy_s` copies every name that was
checked. -/
def doMqueueCreate (limit : Nat) (state : Mqueues) (attr : MqAttr) (mqName : Bytes)
    (openFlag : BitVec 32) (granting : Granting) : Except Errno Nat × Mqueues :=
  match state.losQueueCreate attr.mqMaxmsg.toNat attr.mqMsgsize.toNat granting.queueMemory with
  | (.error errno, state) => (.error errno, state)
  | (.ok mqueueID, state) =>
      let slot := getQueueIndex mqueueID
      if (state.table slot).mqcb.isSome then (.error .EINVAL, state)
      else
        let entry := { state.table slot with mqId := mqueueID % 2 ^ 31 }
        if granting.nameMemory = false then
          (.error .ENOMEM, state.setSlot slot { entry with mqName := none })
        else if limit ≤ getQueueIndex entry.mqId then
          (.error .ENOSPC, state.setSlot slot { entry with mqName := none })
        else
          match granting.personal with
          | none =>
              (.error .ENOSPC,
                ((state.losQueueDelete limit entry.mqId granting.deletion).2).setSlot slot
                  { entry with mqName := none, mqcb := none, mqPersonal := [] })
          | some personal =>
              (.ok personal,
                { state.setSlot slot
                    { entry with
                      unlinkflag := false
                      mqName := some mqName
                      mqcb := some entry.mqId
                      mqPersonal := [personal] } with
                  heap := update state.heap personal
                    (some ⟨slot, openFlag ||| (attr.mqFlags &&& fnonblock), mqUseMagic⟩) })

/-- `DoMqueueOpen`, with the address of the descriptor. -/
def doMqueueOpen (state : Mqueues) (slot : Nat) (openFlag : BitVec 32) (personal : Option Nat) :
    Except Errno Nat × Mqueues :=
  let entry := state.table slot
  if entry.unlinkflag = true then (.error .EINVAL, state)
  else
    match personal with
    | none => (.error .ENOSPC, state)
    | some personal =>
        (.ok personal,
          { state.setSlot slot { entry with mqPersonal := personal :: entry.mqPersonal } with
            heap := update state.heap personal (some ⟨slot, openFlag, mqUseMagic⟩) })

/-- The attributes that `mq_open` uses, unless they are out of range. -/
def mqAttr : Option MqAttr → Except Errno MqAttr
  | none => .ok ⟨0, mqMaxMsgNum, mqMaxMsgLen⟩
  | some attr =>
      if attr.mqMaxmsg < 0 ∨ (ushrtMax : Int) < attr.mqMaxmsg ∨ attr.mqMsgsize < 0 ∨
          ((ushrtMax - 4 : Nat) : Int) < attr.mqMsgsize then .error .EINVAL
      else .ok attr

/-- `mq_open`, with the address of the descriptor. -/
def mqOpen (limit : Nat) (state : Mqueues) (mqName : Option Bytes) (openFlag : BitVec 32)
    (attr : Option MqAttr) (granting : Granting) : Except Errno Nat × Mqueues :=
  match mqNameCheck mqName with
  | .error errno => (.error errno, state)
  | .ok mqName =>
      match state.getMqueueCBByName limit mqName with
      | some slot =>
          if openFlag &&& oCreat ≠ 0 ∧ openFlag &&& oExcl ≠ 0 then (.error .EEXIST, state)
          else state.doMqueueOpen slot openFlag granting.personal
      | none =>
          if openFlag &&& oCreat ≠ 0 then
            match mqAttr attr with
            | .error errno => (.error errno, state)
            | .ok attr => state.doMqueueCreate limit attr mqName openFlag granting
          else (.error .ENOENT, state)

/-- `mq_close` of `NULL` or `-1`, which are `none`, or of a descriptor, undefined when it is not
allocated. `freed` is whether `LOS_MemFree` succeeds. -/
def mqClose (limit : Nat) (state : Mqueues) (personal : Option Nat) (freed : Bool)
    (deletion : Deletion) : Option (Except Errno Unit × Mqueues) :=
  match personal with
  | none => some (.error .EBADF, state)
  | some personal =>
      (state.heap personal).map fun record =>
        let entry := state.table record.mqPosixdes
        if record.mqStatus ≠ mqUseMagic then (.error .EBADF, state)
        else if personal ∉ entry.mqPersonal then (.error .EBADF, state)
        else
          let entry := { entry with mqPersonal := entry.mqPersonal.erase personal }
          let state := state.setSlot record.mqPosixdes entry
          if freed = false then
            (.error .EFAULT,
              { state with
                heap := update state.heap personal
                  (some { record with mqStatus := 0 }) })
          else
            let state := { state with heap := update state.heap personal none }
            if entry.unlinkflag = true ∧ entry.mqPersonal = [] then
              state.doMqueueDelete limit record.mqPosixdes deletion
            else (.ok (), state)

def mqUnlink (limit : Nat) (state : Mqueues) (mqName : Option Bytes) (deletion : Deletion) :
    Except Errno Unit × Mqueues :=
  match mqNameCheck mqName with
  | .error errno => (.error errno, state)
  | .ok mqName =>
      match state.getMqueueCBByName limit mqName with
      | none => (.error .ENOENT, state)
      | some slot =>
          let entry := state.table slot
          if entry.mqPersonal ≠ [] then
            (.error .EINTR, state.setSlot slot { entry with unlinkflag := true })
          else state.doMqueueDelete limit slot deletion

end Mqueues

/-- A call, with what is granted to it and how the kernel deletes a queue. -/
inductive Call
  | mqOpen (mqName : Option Bytes) (openFlag : BitVec 32) (attr : Option MqAttr)
      (granting : Granting)
  | mqClose (personal : Option Nat) (freed : Bool) (deletion : Deletion)
  | mqUnlink (mqName : Option Bytes) (deletion : Deletion)
  deriving DecidableEq

/-- What a call returns, for `mq_open` the address of the descriptor, and the state after it. -/
def Mqueues.call (limit : Nat) (state : Mqueues) :
    Call → Option (Except Errno (Option Nat) × Mqueues)
  | .mqOpen mqName openFlag attr granting =>
      let opened := state.mqOpen limit mqName openFlag attr granting
      some (opened.1.map some, opened.2)
  | .mqClose personal freed deletion =>
      (state.mqClose limit personal freed deletion).map fun closed =>
        (closed.1.map fun _ => none, closed.2)
  | .mqUnlink mqName deletion =>
      let unlinked := state.mqUnlink limit mqName deletion
      some (unlinked.1.map fun _ => none, unlinked.2)

def step (limit : Nat) (state : Mqueues) (call : Call) : Option Mqueues :=
  (state.call limit call).map Prod.snd

/-- The table before the first call, with all kernel queues free. -/
def initial (limit : Nat) : Mqueues :=
  ⟨fun _ => ⟨0, false, none, none, []⟩, fun _ => none, List.range limit, fun _ => false⟩

/-! ### What the table is to be -/

namespace Mqueues

/-- The table is in order. -/
structure Tabled (state : Mqueues) : Prop where
  used : ∀ slot, (state.table slot).inUse = true ↔ state.inUsed slot = true
  named : ∀ slot, (state.table slot).inUse = true → ∃ name, (state.table slot).mqName = some name
  unique : ∀ slot other name, (state.table slot).mqName = some name →
    (state.table other).mqName = some name → slot = other
  nodup : ∀ slot, (state.table slot).mqPersonal.Nodup
  listed : ∀ slot personal, personal ∈ (state.table slot).mqPersonal ↔
    ∃ record, state.heap personal = some record ∧ record.mqStatus = mqUseMagic ∧
      record.mqPosixdes = slot
  holding : ∀ slot, (state.table slot).mqPersonal ≠ [] → (state.table slot).inUse = true
  unlinked : ∀ slot, (state.table slot).inUse = true → (state.table slot).unlinkflag = true →
    (state.table slot).mqPersonal ≠ []

/-- The slot that a call of `mq_unlink` names. -/
def unlinks (limit : Nat) (state : Mqueues) : Call → Option Nat
  | .mqUnlink mqName _ =>
      match mqNameCheck mqName with
      | .error _ => none
      | .ok mqName => state.getMqueueCBByName limit mqName
  | _ => none

/-- The slot that a call takes its end from: `mq_close` of the last descriptor of an unlinked slot,
and `mq_unlink` of a slot without descriptors. -/
def ends (limit : Nat) (state : Mqueues) : Call → Option Nat
  | .mqClose (some personal) _ _ =>
      (state.heap personal).bind fun record =>
        if record.mqStatus = mqUseMagic ∧ (state.table record.mqPosixdes).unlinkflag = true ∧
            (state.table record.mqPosixdes).mqPersonal = [personal] then some record.mqPosixdes
        else none
  | .mqUnlink mqName deletion =>
      (state.unlinks limit (.mqUnlink mqName deletion)).bind fun slot =>
        if (state.table slot).mqPersonal = [] then some slot else none
  | _ => none

/-- What a call does to the slots that are in use, and to those that come into use. -/
structure Lives (limit : Nat) (state next : Mqueues) (call : Call) : Prop where
  destroyed : ∀ slot, (state.table slot).inUse = true →
    ((next.table slot).inUse = false ↔ state.ends limit call = some slot)
  flagged : ∀ slot, (state.table slot).inUse = true → (next.table slot).inUse = true →
    ((next.table slot).unlinkflag = true ↔
      (state.table slot).unlinkflag = true ∨ state.unlinks limit call = some slot)
  fresh : ∀ slot, (state.table slot).inUse = false → (next.table slot).inUse = true →
    (next.table slot).unlinkflag = false

/-- Nothing has happened, but that a slot that is not in use may have the place of its kernel queue
in `mq_id`. -/
structure Unchanged (state next : Mqueues) : Prop where
  heap : next.heap = state.heap
  inUsed : next.inUsed = state.inUsed
  table : ∀ slot, next.table slot = state.table slot ∨
    ((state.table slot).inUse = false ∧
      next.table slot = { state.table slot with mqId := slot })

/-- `mq_open` makes a kernel queue. -/
def creates (limit : Nat) (state : Mqueues) (mqName : Option Bytes) (openFlag : BitVec 32)
    (attr : Option MqAttr) (memory : Bool) : Bool :=
  match mqNameCheck mqName, mqAttr attr with
  | .ok mqName, .ok attr =>
      (state.getMqueueCBByName limit mqName).isNone && openFlag &&& oCreat != 0 &&
        (state.losQueueCreate attr.mqMaxmsg.toNat attr.mqMsgsize.toNat memory).1.isOk
  | _, _ => false

/-- A call is careful when there is memory for the name once a kernel queue is made, and no task is
in a kernel queue that is deleted, nor does the freeing of its last descriptor fail. -/
def careful (limit : Nat) (state : Mqueues) : Call → Bool
  | .mqOpen mqName openFlag attr granting =>
      !state.creates limit mqName openFlag attr granting.queueMemory ||
        (granting.nameMemory && (granting.personal.isSome || granting.deletion != .inUse))
  | .mqClose personal freed deletion =>
      (state.ends limit (.mqClose personal freed deletion)).isNone ||
        (freed && deletion != .inUse)
  | .mqUnlink mqName deletion =>
      (state.ends limit (.mqUnlink mqName deletion)).isNone || deletion != .inUse

/-- A new descriptor is given memory that is not in use, and only descriptors that are allocated
are closed. -/
def offered (state : Mqueues) : Call → Bool
  | .mqOpen _ _ _ granting => granting.personal.all fun personal => (state.heap personal).isNone
  | .mqClose personal _ _ => personal.all fun personal => (state.heap personal).isSome
  | .mqUnlink _ _ => true

end Mqueues

/-! ### What holds between calls -/

/-- A slot and its kernel queue. -/
structure Mqarray.Ok (entry : Mqarray) (slot : Nat) (queue : Bool) : Prop where
  used : entry.inUse = queue
  own : queue = true → entry.mqcb = some slot ∧ entry.mqId = slot
  named : queue = true → ∃ name, entry.mqName = some name
  unnamed : queue = false → entry.mqName = none
  holding : queue = false → entry.mqPersonal = []
  unlinked : queue = true → entry.unlinkflag = true → entry.mqPersonal ≠ []
  nodup : entry.mqPersonal.Nodup

namespace Mqueues

variable {limit slot personal : Nat} {state next : Mqueues} {entry : Mqarray} {name : Bytes}

/-- The descriptors that are in use are on the lists of their slots. -/
def Listed (state : Mqueues) : Prop :=
  ∀ slot personal, personal ∈ (state.table slot).mqPersonal ↔
    ∃ record, state.heap personal = some record ∧ record.mqStatus = mqUseMagic ∧
      record.mqPosixdes = slot

structure Sound (limit : Nat) (state : Mqueues) : Prop where
  entries : ∀ slot, (state.table slot).Ok slot (state.inUsed slot)
  names : ∀ slot other name, (state.table slot).mqName = some name →
    (state.table other).mqName = some name → slot = other
  listed : state.Listed
  free : ∀ queueID, queueID ∈ state.freeQueues ↔ queueID < limit ∧ state.inUsed queueID = false
  nodup : state.freeQueues.Nodup
  small : ∀ queueID, state.inUsed queueID = true → queueID < limit

theorem Sound.isTabled (sound : state.Sound limit) : state.Tabled where
  used := fun slot => by rw [(sound.entries slot).used]
  named := fun slot used => (sound.entries slot).named ((sound.entries slot).used ▸ used)
  unique := sound.names
  nodup := fun slot => (sound.entries slot).nodup
  listed := sound.listed
  holding := fun slot some_ => by
    by_contra unused
    have free := (sound.entries slot).used.symm.trans (eq_false_iff.mpr unused)
    exact some_ ((sound.entries slot).holding free)
  unlinked := fun slot used => (sound.entries slot).unlinked ((sound.entries slot).used ▸ used)

theorem Sound.change (sound : state.Sound limit)
    (table : next.table = update state.table slot entry) (ok : entry.Ok slot (next.inUsed slot))
    (others : ∀ other, other ≠ slot → next.inUsed other = state.inUsed other)
    (free : ∀ queueID, queueID ∈ next.freeQueues ↔ queueID < limit ∧ next.inUsed queueID = false)
    (nodup : next.freeQueues.Nodup) (small : next.inUsed slot = true → slot < limit)
    (names : ∀ name, entry.mqName = some name → ∀ other,
      (state.table other).mqName = some name → other = slot)
    (listed : next.Listed) : next.Sound limit := by
  have here : next.table slot = entry := by rw [table, update_self]
  have older : ∀ other, other ≠ slot → next.table other = state.table other :=
    fun other different => by rw [table, update_of_ne different]
  refine ⟨fun other => ?_, fun first second name isFirst isSecond => ?_, listed, free, nodup,
    fun queueID used => ?_⟩
  · by_cases same : other = slot
    · rw [same, here]
      exact ok
    · rw [older other same, others other same]
      exact sound.entries other
  · by_cases same : first = slot <;> by_cases sameSecond : second = slot
    · rw [same, sameSecond]
    · rw [same, here] at isFirst
      rw [older second sameSecond] at isSecond
      exact same.trans (names name isFirst second isSecond).symm
    · rw [sameSecond, here] at isSecond
      rw [older first same] at isFirst
      exact (names name isSecond first isFirst).trans sameSecond.symm
    · rw [older first same] at isFirst
      rw [older second sameSecond] at isSecond
      exact sound.names first second name isFirst isSecond
  · by_cases same : queueID = slot
    · rw [same] at used ⊢
      exact small used
    · exact sound.small queueID (others queueID same ▸ used)

/-! ### Lists of descriptors -/

theorem Listed.same (listed : state.Listed)
    (table : next.table = update state.table slot entry) (heap : next.heap = state.heap)
    (kept : entry.mqPersonal = (state.table slot).mqPersonal) : next.Listed := by
  intro other personal
  have list : (next.table other).mqPersonal = (state.table other).mqPersonal := by
    by_cases same : other = slot
    · rw [table, same, update_self, kept]
    · rw [table, update_of_ne same]
  rw [list, heap]
  exact listed other personal

theorem Listed.add (listed : state.Listed) (fresh : state.heap personal = none)
    (table : next.table = update state.table slot entry) (flags : BitVec 32)
    (heap : next.heap = update state.heap personal (some ⟨slot, flags, mqUseMagic⟩))
    (longer : entry.mqPersonal = personal :: (state.table slot).mqPersonal) : next.Listed := by
  intro other old
  rw [heap, table]
  by_cases same : old = personal
  · subst same
    have nowhere : ∀ place, old ∉ (state.table place).mqPersonal := fun place member => by
      obtain ⟨record, here, -⟩ := (listed place old).mp member
      rw [fresh] at here
      cases here
    rw [update_self]
    by_cases place : other = slot
    · subst place
      rw [update_self, longer]
      exact iff_of_true mem_cons_self ⟨_, rfl, rfl, rfl⟩
    rw [update_of_ne place]
    refine iff_of_false (nowhere other) ?_
    rintro ⟨record, here, -, rfl⟩
    obtain rfl := some.inj here
    exact place rfl
  · rw [update_of_ne same]
    by_cases place : other = slot
    · subst place
      rw [update_self, longer, mem_cons]
      exact (or_iff_right same).trans (listed other old)
    · rw [update_of_ne place]
      exact listed other old

theorem Listed.remove {rest : Option Mqpersonal} (listed : state.Listed)
    (member : personal ∈ (state.table slot).mqPersonal)
    (nodup : (state.table slot).mqPersonal.Nodup)
    (table : next.table = update state.table slot entry)
    (heap : next.heap = update state.heap personal rest)
    (unused : ∀ record, rest = some record → record.mqStatus ≠ mqUseMagic)
    (shorter : entry.mqPersonal = (state.table slot).mqPersonal.erase personal) : next.Listed := by
  intro other old
  rw [heap, table]
  by_cases same : old = personal
  · subst same
    rw [update_self]
    refine iff_of_false (fun there => ?_) fun ⟨record, here, magic, _⟩ =>
      unused record here magic
    by_cases place : other = slot
    · rw [place, update_self, shorter] at there
      exact nodup.not_mem_erase there
    rw [update_of_ne place] at there
    obtain ⟨record, here, -, isSlot⟩ := (listed slot old).mp member
    obtain ⟨again, hereAgain, -, isOther⟩ := (listed other old).mp there
    obtain rfl := some.inj (here.symm.trans hereAgain)
    exact place (isOther.symm.trans isSlot)
  · rw [update_of_ne same]
    by_cases place : other = slot
    · subst place
      rw [update_self, shorter, mem_erase_of_ne same]
      exact listed other old
    · rw [update_of_ne place]
      exact listed other old

/-! ### Names and kernel queues -/

theorem name_of_find (found : state.getMqueueCBByName limit name = some slot) :
    (state.table slot).mqName = some name := by
  have named := List.find?_some found
  exact beq_iff_eq.mp named

theorem Sound.used_of_name (sound : state.Sound limit)
    (named : (state.table slot).mqName = some name) : state.inUsed slot = true := by
  by_contra unused
  rw [(sound.entries slot).unnamed (eq_false_iff.mpr unused)] at named
  cases named

theorem Sound.ne_of_find (sound : state.Sound limit)
    (missing : state.getMqueueCBByName limit name = none) (slot : Nat) :
    (state.table slot).mqName ≠ some name := fun named =>
  List.find?_eq_none.mp missing slot
    (mem_range.mpr (sound.small slot (sound.used_of_name named))) (beq_iff_eq.mpr named)

theorem Lives.change {call : Call} (table : next.table = update state.table slot entry)
    (ends : ∀ other, state.ends limit call = some other → other = slot)
    (unlinks : ∀ other, state.unlinks limit call = some other → other = slot)
    (destroyed : (state.table slot).inUse = true →
      (entry.inUse = false ↔ state.ends limit call = some slot))
    (flagged : (state.table slot).inUse = true → entry.inUse = true →
      (entry.unlinkflag = true ↔
        (state.table slot).unlinkflag = true ∨ state.unlinks limit call = some slot))
    (fresh : (state.table slot).inUse = false → entry.inUse = true →
      entry.unlinkflag = false) : Lives limit state next call := by
  have here : next.table slot = entry := by rw [table, update_self]
  have older : ∀ other, other ≠ slot → next.table other = state.table other :=
    fun other different => by rw [table, update_of_ne different]
  refine ⟨fun other used => ?_, fun other used still => ?_, fun other unused used => ?_⟩
  · by_cases same : other = slot
    · rw [same] at used ⊢
      rw [here]
      exact destroyed used
    · rw [older other same, used]
      exact iff_of_false Bool.false_ne_true.symm fun ended => same (ends other ended)
  · by_cases same : other = slot
    · rw [same] at used still ⊢
      rw [here] at still ⊢
      exact flagged used still
    · rw [older other same]
      exact (or_iff_left fun unlinked => same (unlinks other unlinked)).symm
  · by_cases same : other = slot
    · rw [same, here] at used ⊢
      rw [same] at unused
      exact fresh unused used
    · rw [older other same, unused] at used
      cases used

theorem Lives.same {call : Call} (ends : state.ends limit call = none)
    (unlinks : state.unlinks limit call = none) : Lives limit state state call := by
  refine ⟨fun slot used => ?_, fun slot _ _ => ?_, fun slot unused used => ?_⟩
  · rw [used, ends]
    exact iff_of_false Bool.false_ne_true.symm (some_ne_none slot).symm
  · rw [unlinks]
    exact (or_iff_left (some_ne_none slot).symm).symm
  · rw [unused] at used
    cases used

theorem Unchanged.refl (state : Mqueues) : Unchanged state state := ⟨rfl, rfl, fun _ => .inl rfl⟩

/-! ### Opening -/

theorem Sound.opened (sound : state.Sound limit) (used : state.inUsed slot = true)
    (fresh : state.heap personal = none) (flags : BitVec 32) : Sound limit
      { state.setSlot slot { state.table slot with
          mqPersonal := personal :: (state.table slot).mqPersonal } with
        heap := update state.heap personal (some ⟨slot, flags, mqUseMagic⟩) } := by
  have ok := sound.entries slot
  have unknown : personal ∉ (state.table slot).mqPersonal := fun member => by
    obtain ⟨record, here, -⟩ := (sound.listed slot personal).mp member
    rw [fresh] at here
    cases here
  refine sound.change rfl ⟨ok.used, ok.own, ok.named, ok.unnamed, fun unused => ?_,
    fun _ _ => cons_ne_nil _ _, nodup_cons.mpr ⟨unknown, ok.nodup⟩⟩ (fun _ _ => rfl)
    sound.free sound.nodup (sound.small slot) (fun name named other otherNamed => ?_)
    (sound.listed.add fresh rfl flags rfl rfl)
  · exact absurd (used.symm.trans unused) Bool.false_ne_true.symm
  · exact sound.names other slot name otherNamed named

/-- What `mq_open` leaves. -/
def Opens (limit : Nat) (state : Mqueues) (call : Call) (result : Except Errno Nat)
    (next : Mqueues) : Prop :=
  next.Sound limit ∧ Lives limit state next call ∧
    ∀ errno, result = .error errno → Unchanged state next

theorem doMqueueOpen_opens {call : Call} (sound : state.Sound limit)
    (ends : state.ends limit call = none) (unlinks : state.unlinks limit call = none)
    (named : (state.table slot).mqName = some name) {granted : Option Nat}
    (fresh : ∀ personal, granted = some personal → state.heap personal = none)
    (openFlag : BitVec 32) : Opens limit state call (state.doMqueueOpen slot openFlag granted).1
      (state.doMqueueOpen slot openFlag granted).2 := by
  have failed : ∀ errno : Errno, Opens limit state call (.error errno) state := fun _ =>
    ⟨sound, .same ends unlinks, fun _ _ => .refl state⟩
  have used := sound.used_of_name named
  unfold doMqueueOpen
  dsimp only
  split
  · exact failed _
  cases granted with
  | none => exact failed _
  | some personal =>
    refine ⟨sound.opened used (fresh personal rfl) openFlag, ?_, fun errno opened => ?_⟩
    · refine Lives.change rfl (fun other ended => ?_) (fun other unlinked => ?_) (fun inUse => ?_)
        (fun _ _ => ?_) (fun unused _ => ?_)
      · rw [ends] at ended
        cases ended
      · rw [unlinks] at unlinked
        cases unlinked
      · rw [ends]
        exact iff_of_false (eq_false_iff.not_left.mpr inUse) (some_ne_none _).symm
      · rw [unlinks]
        exact (or_iff_left (some_ne_none _).symm).symm
      · rw [(sound.entries slot).used, used] at unused
        cases unused
    · cases opened

theorem losQueueCreate_cases (state : Mqueues) (len maxMsgSize : Nat) (memory : Bool) :
    (∃ errno, state.losQueueCreate len maxMsgSize memory = (.error errno, state)) ∨
      ∃ queueID rest, state.freeQueues = queueID :: rest ∧
        state.losQueueCreate len maxMsgSize memory = (.ok queueID,
          { state with
            freeQueues := rest
            inUsed := update state.inUsed queueID true }) := by
  unfold losQueueCreate
  split
  · exact .inl ⟨_, rfl⟩
  split
  · exact .inl ⟨_, rfl⟩
  split
  · exact .inl ⟨_, rfl⟩
  split
  · exact .inl ⟨_, rfl⟩
  · cases free : state.freeQueues with
    | nil => exact .inl ⟨_, rfl⟩
    | cons queueID rest => exact .inr ⟨queueID, rest, rfl, rfl⟩

theorem losQueueDelete_eq {queueID : Nat} {deletion : Deletion} (small : queueID < limit)
    (used : state.inUsed queueID = true) (deletes : deletion ≠ .inUse) :
    (state.losQueueDelete limit queueID deletion).2 = { state with
        freeQueues := queueID :: state.freeQueues
        inUsed := update state.inUsed queueID false } := by
  unfold losQueueDelete
  rw [if_neg (Nat.not_le.mpr small), if_neg (by rw [used]; exact Bool.false_ne_true.symm)]
  cases deletion with
  | freed => rfl
  | unfreed => rfl
  | inUse => exact absurd rfl deletes

section

variable (sound : state.Sound limit)
include sound

theorem Sound.unused (free : state.inUsed slot = false) :
    (state.table slot).mqcb = none ∧ (state.table slot).mqName = none ∧
      (state.table slot).mqPersonal = [] := by
  have ok := sound.entries slot
  have unused := ok.used.trans free
  rw [Mqarray.inUse, isSome_eq_false_iff, isNone_iff_eq_none] at unused
  exact ⟨unused, ok.unnamed free, ok.holding free⟩

theorem Sound.stale (free : state.inUsed slot = false) :
    Sound limit (state.setSlot slot { state.table slot with mqId := slot }) := by
  have ok := sound.entries slot
  refine sound.change rfl ⟨ok.used, fun used => absurd (free.symm.trans used) Bool.false_ne_true,
    ok.named, ok.unnamed, ok.holding, ok.unlinked, ok.nodup⟩ (fun _ _ => rfl) sound.free
    sound.nodup (sound.small slot) (fun name named other otherNamed => ?_)
    (sound.listed.same rfl rfl rfl)
  exact sound.names other slot name otherNamed named

theorem Unchanged.stale (free : state.inUsed slot = false) :
    Unchanged state (state.setSlot slot { state.table slot with mqId := slot }) := by
  refine ⟨rfl, rfl, fun other => ?_⟩
  by_cases same : other = slot
  · subst same
    exact .inr ⟨(sound.entries other).used.trans free, update_self ..⟩
  · exact .inl (update_of_ne same _ _)

theorem Sound.created {rest : List Nat}
    (free : state.freeQueues = slot :: rest) (new : ∀ other, (state.table other).mqName ≠ some name)
    (fresh : state.heap personal = none) (flags : BitVec 32)
    (linked : entry.unlinkflag = false) (named : entry.mqName = some name)
    (queue : entry.mqcb = some slot) (own : entry.mqId = slot)
    (list : entry.mqPersonal = [personal]) :
    Sound limit
      { table := update state.table slot entry
        heap := update state.heap personal (some ⟨slot, flags, mqUseMagic⟩)
        freeQueues := rest
        inUsed := update state.inUsed slot true } := by
  have member : slot ∈ state.freeQueues := by rw [free]; exact mem_cons_self
  obtain ⟨small, unused⟩ := (sound.free slot).mp member
  have nodup := sound.nodup
  rw [free, nodup_cons] at nodup
  refine @Sound.change _ _ _ _ entry sound rfl ?_ (fun other different =>
    update_of_ne different _ _) (fun queueID => ?_) nodup.2 (fun _ => small)
    (fun other isName third thirdNamed => ?_) (sound.listed.add fresh rfl flags rfl ?_)
  · change entry.Ok slot (update state.inUsed slot true slot)
    rw [update_self]
    refine ⟨?_, fun _ => ⟨queue, own⟩, fun _ => ⟨name, named⟩, fun no => ?_, fun no => ?_,
      fun _ unlinked => ?_, ?_⟩
    · rw [Mqarray.inUse, queue, isSome_some]
    · cases no
    · cases no
    · rw [linked] at unlinked
      cases unlinked
    · rw [list]
      exact nodup_singleton personal
  · by_cases same : queueID = slot
    · subst same
      refine iff_of_false nodup.1 fun used => ?_
      exact Bool.false_ne_true (used.2.symm.trans (update_self _ _ _))
    have inRest : queueID ∈ rest ↔ queueID ∈ state.freeQueues := by
      rw [free, mem_cons]
      exact (or_iff_right same).symm
    have bit : update state.inUsed slot true queueID = state.inUsed queueID :=
      update_of_ne same _ _
    dsimp only
    rw [inRest, sound.free, bit]
  · obtain rfl := some.inj (named.symm.trans isName)
    exact absurd thirdNamed (new third)
  · rw [list, (sound.unused unused).2.2]

end

variable {attr : MqAttr} {openFlag : BitVec 32} {granting : Granting}

theorem doMqueueCreate_opens {call : Call} (fits : limit ≤ ushrtMax) (sound : state.Sound limit)
    (ends : state.ends limit call = none) (unlinks : state.unlinks limit call = none)
    (new : ∀ other, (state.table other).mqName ≠ some name)
    (fresh : ∀ personal, granting.personal = some personal → state.heap personal = none)
    (careful : (state.losQueueCreate attr.mqMaxmsg.toNat attr.mqMsgsize.toNat
        granting.queueMemory).1.isOk = true →
      granting.nameMemory = true ∧ (granting.personal ≠ none ∨ granting.deletion ≠ .inUse)) :
    Opens limit state call (state.doMqueueCreate limit attr name openFlag granting).1
      (state.doMqueueCreate limit attr name openFlag granting).2 := by
  rw [doMqueueCreate]
  obtain ⟨errno, refused⟩ | ⟨slot, rest, free, made⟩ := losQueueCreate_cases state
    attr.mqMaxmsg.toNat attr.mqMsgsize.toNat granting.queueMemory
  · rw [refused]
    exact ⟨sound, .same ends unlinks, fun _ _ => .refl state⟩
  obtain ⟨nameMemory, recovers⟩ := careful (by rw [made]; rfl)
  have member : slot ∈ state.freeQueues := by rw [free]; exact mem_cons_self
  obtain ⟨small, unused⟩ := (sound.free slot).mp member
  obtain ⟨queue, unnamed, empty⟩ := sound.unused unused
  have index : getQueueIndex slot = slot := Nat.mod_eq_of_lt (by rw [ushrtMax] at fits; omega)
  have bits : slot % 2 ^ 31 = slot := Nat.mod_eq_of_lt (by rw [ushrtMax] at fits; omega)
  rw [made]
  dsimp only
  rw [index, bits, if_neg (by rw [queue]; exact Bool.false_ne_true), nameMemory,
    index, if_neg (Nat.not_le.mpr small)]
  cases granted : granting.personal with
  | none =>
    have deletes := recovers.resolve_left (absurd granted)
    have deleted : (losQueueDelete limit
        { state with
          freeQueues := rest
          inUsed := update state.inUsed slot true } slot granting.deletion).2 =
        state := by
      rw [losQueueDelete_eq small (update_self ..) deletes]
      rw [← free, Function.update_idem, ← unused, Function.update_eq_self]
    have entry : { state.table slot with
        mqId := slot, mqName := none, mqcb := none, mqPersonal := [] } =
        { state.table slot with mqId := slot } := by
      rw [← queue, ← unnamed, ← empty]
    rw [deleted, entry]
    refine ⟨sound.stale unused, ?_, fun _ _ => .stale sound unused⟩
    refine Lives.change rfl (fun other ended => ?_) (fun other unlinked => ?_) (fun inUse => ?_)
      (fun inUse _ => ?_) (fun _ inUse => ?_)
    · rw [ends] at ended
      cases ended
    · rw [unlinks] at unlinked
      cases unlinked
    all_goals
      rw [Mqarray.inUse, queue] at inUse
      cases inUse
  | some personal =>
    refine ⟨sound.created free new (fresh personal granted) _ rfl rfl rfl rfl rfl, ?_,
      fun errno opened => ?_⟩
    · refine Lives.change rfl (fun other ended => ?_) (fun other unlinked => ?_) (fun inUse => ?_)
        (fun inUse _ => ?_) (fun _ _ => rfl)
      · rw [ends] at ended
        cases ended
      · rw [unlinks] at unlinked
        cases unlinked
      all_goals
        rw [Mqarray.inUse, queue] at inUse
        cases inUse
    · cases opened

theorem mqOpen_opens (fits : limit ≤ ushrtMax) (sound : state.Sound limit)
    {mqName : Option Bytes} {given : Option MqAttr}
    (fresh : state.offered (.mqOpen mqName openFlag given granting) = true)
    (careful : state.careful limit (.mqOpen mqName openFlag given granting) = true) :
    Opens limit state (.mqOpen mqName openFlag given granting)
      (state.mqOpen limit mqName openFlag given granting).1
      (state.mqOpen limit mqName openFlag given granting).2 := by
  have failed : ∀ errno : Errno, Opens limit state (.mqOpen mqName openFlag given granting)
      (.error errno) state := fun _ => ⟨sound, .same rfl rfl, fun _ _ => .refl state⟩
  have unknown : ∀ personal, granting.personal = some personal → state.heap personal = none :=
    fun personal granted => by
      rw [offered, granted, all_some, isNone_iff_eq_none] at fresh
      exact fresh
  rw [Mqueues.careful, or_eq_true, Bool.and_eq_true, or_eq_true] at careful
  rw [mqOpen]
  cases checked : mqNameCheck mqName with
  | error errno => exact failed errno
  | ok name =>
    dsimp only
    cases found : state.getMqueueCBByName limit name with
    | some slot =>
      dsimp only
      split
      · exact failed _
      · exact doMqueueOpen_opens sound rfl rfl (name_of_find found) unknown openFlag
    | none =>
      dsimp only
      split
      · rename_i creating
        cases attributes : mqAttr given with
        | error errno => exact failed errno
        | ok attr =>
          refine doMqueueCreate_opens fits sound rfl rfl (sound.ne_of_find found) unknown
            fun made => ?_
          have creates : state.creates limit mqName openFlag given granting.queueMemory = true := by
            rw [Mqueues.creates, checked, attributes]
            dsimp only
            rw [found, made, Bool.and_true]
            exact bne_iff_ne.mpr creating
          rw [creates] at careful
          obtain ⟨nameMemory, recovers⟩ := careful.resolve_left Bool.false_ne_true
          exact ⟨nameMemory, recovers.imp isSome_iff_ne_none.mp bne_iff_ne.mp⟩
      · exact failed _

/-! ### Closing and unlinking -/

/-- A descriptor has been taken from the list of a slot. -/
def withdrawn (state : Mqueues) (slot personal : Nat) (rest : Option Mqpersonal) : Mqueues :=
  { state.setSlot slot { state.table slot with
      mqPersonal := (state.table slot).mqPersonal.erase personal } with
    heap := update state.heap personal rest }

theorem withdrawn_table (rest : Option Mqpersonal) :
    (state.withdrawn slot personal rest).table slot = { state.table slot with
        mqPersonal := (state.table slot).mqPersonal.erase personal } :=
  update_self ..

theorem Sound.removed {rest : Option Mqpersonal} (sound : state.Sound limit)
    (member : personal ∈ (state.table slot).mqPersonal)
    (unused : ∀ record, rest = some record → record.mqStatus ≠ mqUseMagic)
    (stays : (state.table slot).unlinkflag = true →
      (state.table slot).mqPersonal.erase personal ≠ []) :
    (state.withdrawn slot personal rest).Sound limit := by
  have ok := sound.entries slot
  refine sound.change rfl ⟨ok.used, ok.own, ok.named, ok.unnamed, fun free => ?_,
    fun _ unlinked => stays unlinked, ok.nodup.erase personal⟩ (fun _ _ => rfl) sound.free
    sound.nodup (sound.small slot) (fun name named other otherNamed => ?_)
    (sound.listed.remove member ok.nodup rfl rfl unused rfl)
  · rw [ok.holding free] at member
    cases member
  · exact sound.names other slot name otherNamed named

theorem Sound.unlinked (sound : state.Sound limit) (some_ : (state.table slot).mqPersonal ≠ []) :
    Sound limit (state.setSlot slot { state.table slot with unlinkflag := true }) := by
  have ok := sound.entries slot
  refine sound.change rfl ⟨ok.used, ok.own, ok.named, ok.unnamed, ok.holding, fun _ _ => some_,
    ok.nodup⟩ (fun _ _ => rfl) sound.free sound.nodup (sound.small slot)
    (fun name named other otherNamed => ?_) (sound.listed.same rfl rfl rfl)
  exact sound.names other slot name otherNamed named

theorem Sound.destroyed (sound : state.Sound limit) (used : state.inUsed slot = true)
    (table : next.table = update state.table slot entry)
    (free : next.freeQueues = slot :: state.freeQueues)
    (inUsed : next.inUsed = update state.inUsed slot false)
    (unnamed : entry.mqName = none) (queue : entry.mqcb = none) (empty : entry.mqPersonal = [])
    (listed : next.Listed) : next.Sound limit := by
  have unused : next.inUsed slot = false := by rw [inUsed, update_self]
  have others : ∀ other, other ≠ slot → next.inUsed other = state.inUsed other :=
    fun other different => by rw [inUsed, update_of_ne different]
  have taken : slot ∉ state.freeQueues := fun member => by
    rw [((sound.free slot).mp member).2] at used
    cases used
  refine sound.change table ?_ others (fun queueID => ?_) ?_ (fun again => ?_)
    (fun name named => ?_) listed
  · rw [unused]
    refine ⟨?_, fun no => ?_, fun no => ?_, fun _ => unnamed, fun _ => empty, fun no => ?_, ?_⟩
    · rw [Mqarray.inUse, queue, isSome_none]
    · cases no
    · cases no
    · cases no
    · rw [empty]
      exact nodup_nil
  · rw [free, mem_cons]
    by_cases same : queueID = slot
    · rw [same]
      exact iff_of_true (.inl rfl) ⟨sound.small slot used, unused⟩
    · rw [others queueID same, ← sound.free]
      exact or_iff_right same
  · rw [free]
    exact nodup_cons.mpr ⟨taken, sound.nodup⟩
  · rw [unused] at again
    cases again
  · rw [unnamed] at named
    cases named

theorem doMqueueDelete_eq {deletion : Deletion} (own : (state.table slot).mqId = slot)
    (small : slot < limit) (used : state.inUsed slot = true) (deletes : deletion ≠ .inUse) :
    (state.doMqueueDelete limit slot deletion).2 =
      { state.setSlot slot { state.table slot with mqName := none, mqcb := none } with
        freeQueues := slot :: state.freeQueues
        inUsed := update state.inUsed slot false } := by
  unfold doMqueueDelete
  dsimp only
  rw [own]
  exact losQueueDelete_eq small used deletes

theorem erase_eq_nil_of_mem {list : List Nat} (member : personal ∈ list) :
    list.erase personal = [] ↔ list = [personal] := by
  rw [erase_eq_nil_iff]
  exact or_iff_right (ne_nil_of_mem member)

theorem Sound.used_of_member (sound : state.Sound limit)
    (member : personal ∈ (state.table slot).mqPersonal) : state.inUsed slot = true := by
  by_contra unused
  rw [(sound.entries slot).holding (eq_false_iff.mpr unused)] at member
  cases member

/-- What `mq_close` and `mq_unlink` leave. -/
def Keeps (limit : Nat) (state : Mqueues) (call : Call) (next : Mqueues) : Prop :=
  next.Sound limit ∧ Lives limit state next call

theorem Keeps.of_pair {call : Call} {closed : Except Errno Unit × Mqueues}
    (keeps : Keeps limit state call closed.2) :
    ∃ result next, some closed = some (result, next) ∧ Keeps limit state call next :=
  ⟨closed.1, closed.2, rfl, keeps⟩

theorem mqClose_keeps (sound : state.Sound limit) {descriptor : Option Nat} {freed : Bool}
    {deletion : Deletion} (live : state.offered (.mqClose descriptor freed deletion) = true)
    (careful : state.careful limit (.mqClose descriptor freed deletion) = true) :
    ∃ result next, state.mqClose limit descriptor freed deletion = some (result, next) ∧
      Keeps limit state (.mqClose descriptor freed deletion) next := by
  cases descriptor with
  | none => exact ⟨_, _, rfl, sound, .same rfl rfl⟩
  | some personal =>
    rw [offered, all_some, isSome_iff_exists] at live
    obtain ⟨record, here⟩ := live
    rw [mqClose]
    dsimp only
    rw [here, map_some]
    by_cases magic : record.mqStatus = mqUseMagic
    · have member := (sound.listed record.mqPosixdes personal).mpr ⟨record, here, magic, rfl⟩
      have used := sound.used_of_member member
      have last : state.ends limit (.mqClose (some personal) freed deletion) =
          some record.mqPosixdes ↔ (state.table record.mqPosixdes).unlinkflag = true ∧
            (state.table record.mqPosixdes).mqPersonal.erase personal = [] := by
        rw [Mqueues.ends, here, erase_eq_nil_of_mem member]
        exact (ite_none_right_eq_some.trans (and_iff_left rfl)).trans (and_iff_right magic)
      have only : ∀ other, state.ends limit (.mqClose (some personal) freed deletion) =
          some other → other = record.mqPosixdes := fun other ended => by
        rw [Mqueues.ends, here] at ended
        exact (some.inj (ite_none_right_eq_some.mp ended).2).symm
      have stays : ∀ rest : Option Mqpersonal,
          (∀ record, rest = some record → record.mqStatus ≠ mqUseMagic) →
          ¬((state.table record.mqPosixdes).unlinkflag = true ∧
            (state.table record.mqPosixdes).mqPersonal.erase personal = []) →
          Keeps limit state (.mqClose (some personal) freed deletion)
            (state.withdrawn record.mqPosixdes personal rest) := fun rest unused more =>
        ⟨sound.removed member unused fun unlinked empty => more ⟨unlinked, empty⟩,
          Lives.change rfl only (fun other unlinked => by cases unlinked)
            (fun inUse => iff_of_false (eq_false_iff.not_left.mpr inUse)
              fun ended => more (last.mp ended))
            (fun _ _ => (or_iff_left (some_ne_none _).symm).symm)
            fun unused still => absurd (unused.symm.trans still) Bool.false_ne_true⟩
      rw [if_neg (not_not.mpr magic), if_neg (not_not.mpr member)]
      refine Keeps.of_pair ?_
      by_cases more : (state.table record.mqPosixdes).unlinkflag = true ∧
          (state.table record.mqPosixdes).mqPersonal.erase personal = []
      · rw [Mqueues.careful, last.mpr more, isNone_some, Bool.false_or, Bool.and_eq_true] at careful
        obtain ⟨rfl, deletes⟩ := careful
        have own : ((state.withdrawn record.mqPosixdes personal none).table
            record.mqPosixdes).mqId = record.mqPosixdes := by
          rw [withdrawn_table]
          exact ((sound.entries _).own used).2
        have deleted := doMqueueDelete_eq own (sound.small _ used) used (bne_iff_ne.mp deletes)
        rw [if_pos more]
        change Keeps limit state _ (doMqueueDelete limit
          (state.withdrawn record.mqPosixdes personal none) record.mqPosixdes deletion).2
        rw [deleted, withdrawn_table]
        have table : update (state.withdrawn record.mqPosixdes personal none).table
            record.mqPosixdes { state.table record.mqPosixdes with
              mqName := none
              mqcb := none
              mqPersonal := (state.table record.mqPosixdes).mqPersonal.erase personal } =
            update state.table record.mqPosixdes { state.table record.mqPosixdes with
              mqName := none
              mqcb := none
              mqPersonal := (state.table record.mqPosixdes).mqPersonal.erase personal } :=
          Function.update_idem ..
        refine ⟨sound.destroyed used table rfl rfl rfl rfl more.2 (sound.listed.remove member
          (sound.entries _).nodup table rfl (fun _ none_ => by cases none_) rfl), ?_⟩
        exact Lives.change table only (fun other unlinked => by cases unlinked)
          (fun _ => iff_of_true rfl (last.mpr more)) (fun _ still => by cases still)
          fun _ still => by cases still
      · cases freed with
        | false =>
          refine stays _ (fun changed same => ?_) more
          obtain rfl := some.inj same
          exact (by decide : (0 : Nat) ≠ mqUseMagic)
        | true =>
          rw [if_neg more]
          exact stays none (fun _ none_ => by cases none_) more
    · have ends : state.ends limit (.mqClose (some personal) freed deletion) = none := by
        rw [Mqueues.ends, here, bind_some, if_neg fun last => magic last.1]
      rw [if_pos magic]
      exact ⟨_, _, rfl, sound, .same ends rfl⟩

theorem mqUnlink_keeps (sound : state.Sound limit) {mqName : Option Bytes} {deletion : Deletion}
    (careful : state.careful limit (.mqUnlink mqName deletion) = true) :
    Keeps limit state (.mqUnlink mqName deletion) (state.mqUnlink limit mqName deletion).2 := by
  rw [mqUnlink]
  cases checked : mqNameCheck mqName with
  | error errno =>
    have unlinks : state.unlinks limit (.mqUnlink mqName deletion) = none := by
      rw [Mqueues.unlinks, checked]
    exact ⟨sound, .same (by rw [Mqueues.ends, unlinks, bind_none]) unlinks⟩
  | ok name =>
    dsimp only
    cases found : state.getMqueueCBByName limit name with
    | none =>
      have unlinks : state.unlinks limit (.mqUnlink mqName deletion) = none := by
        rw [Mqueues.unlinks, checked]
        exact found
      exact ⟨sound, .same (by rw [Mqueues.ends, unlinks, bind_none]) unlinks⟩
    | some slot =>
      have unlinks : state.unlinks limit (.mqUnlink mqName deletion) = some slot := by
        rw [Mqueues.unlinks, checked]
        exact found
      have ends : state.ends limit (.mqUnlink mqName deletion) =
          if (state.table slot).mqPersonal = [] then some slot else none := by
        rw [Mqueues.ends, unlinks, bind_some]
      have used := sound.used_of_name (name_of_find found)
      have only : ∀ other, state.unlinks limit (.mqUnlink mqName deletion) = some other →
          other = slot := fun other unlinked =>
        some.inj (unlinked.symm.trans unlinks)
      dsimp only
      by_cases empty : (state.table slot).mqPersonal = []
      · rw [if_pos empty] at ends
        have deletes : deletion ≠ .inUse := by
          rw [Mqueues.careful, ends] at careful
          exact bne_iff_ne.mp careful
        rw [if_neg (not_not.mpr empty), doMqueueDelete_eq ((sound.entries slot).own used).2
          (sound.small slot used) used deletes]
        refine ⟨sound.destroyed used rfl rfl rfl rfl rfl empty (sound.listed.same rfl rfl rfl), ?_⟩
        refine Lives.change rfl (fun other ended => ?_) only (fun _ => iff_of_true rfl ends)
          (fun _ still => ?_) (fun _ still => ?_)
        · exact some.inj (ended.symm.trans ends)
        · cases still
        · cases still
      · rw [if_neg empty] at ends
        rw [if_pos empty]
        refine ⟨sound.unlinked empty, ?_⟩
        refine Lives.change rfl (fun other ended => ?_) only (fun inUse => ?_)
          (fun _ _ => iff_of_true rfl (.inr unlinks)) (fun unused still => ?_)
        · rw [ends] at ended
          cases ended
        · rw [ends]
          exact iff_of_false (eq_false_iff.not_left.mpr inUse) (some_ne_none _).symm
        · exact absurd (unused.symm.trans still) Bool.false_ne_true

/-! ### Runs of calls -/

theorem sound_initial (limit : Nat) : (initial limit).Sound limit where
  entries := fun _ => ⟨rfl, fun no => absurd no Bool.false_ne_true,
    fun no => absurd no Bool.false_ne_true, fun _ => rfl, fun _ => rfl,
    fun no => absurd no Bool.false_ne_true, nodup_nil⟩
  names := fun _ _ _ named => absurd named.symm (some_ne_none _)
  listed := fun _ _ => iff_of_false not_mem_nil fun ⟨_, here, _⟩ =>
    absurd here.symm (some_ne_none _)
  free := fun _ => mem_range.trans (and_iff_left rfl).symm
  nodup := nodup_range
  small := fun _ no => absurd no Bool.false_ne_true

def meets (limit : Nat) (state : Mqueues) (call : Call) : Bool :=
  state.offered call && state.careful limit call

theorem call_keeps (fits : limit ≤ ushrtMax) (sound : state.Sound limit) {call : Call}
    (careful : state.meets limit call = true) :
    ∃ result next, state.call limit call = some (result, next) ∧ next.Sound limit ∧
      Lives limit state next call ∧
      ∀ mqName openFlag attr granting errno, call = .mqOpen mqName openFlag attr granting →
        result = .error errno → Unchanged state next := by
  obtain ⟨live, careful⟩ := and_eq_true_iff.mp careful
  cases call with
  | mqOpen mqName openFlag attr granting =>
    obtain ⟨keeps, lives, unchanged⟩ := mqOpen_opens fits sound live careful
    refine ⟨_, _, rfl, keeps, lives, fun _ _ _ _ errno _ failed => ?_⟩
    cases opened : (state.mqOpen limit mqName openFlag attr granting).1 with
    | error other => exact unchanged other opened
    | ok personal =>
      rw [opened] at failed
      cases failed
  | mqClose personal freed deletion =>
    obtain ⟨result, next, closed, keeps, lives⟩ := mqClose_keeps sound live careful
    refine ⟨_, next, by rw [Mqueues.call, closed]; rfl, keeps, lives,
      fun _ _ _ _ _ other => by cases other⟩
  | mqUnlink mqName deletion =>
    obtain ⟨keeps, lives⟩ := mqUnlink_keeps sound careful
    exact ⟨_, _, rfl, keeps, lives, fun _ _ _ _ _ other => by cases other⟩

theorem sound_of_reached (fits : limit ≤ ushrtMax)
    (reached : Reachable (step limit) (fun state call => meets limit state call = true)
      (· = initial limit) state) : state.Sound limit := by
  induction reached with
  | start first =>
    subst first
    exact sound_initial limit
  | step _ careful taken holds =>
    obtain ⟨result, next, called, keeps, -⟩ := call_keeps fits holds careful
    obtain ⟨pair, again, rfl⟩ := map_eq_some_iff.mp taken
    obtain rfl := some.inj (called.symm.trans again)
    exact keeps

end Mqueues

/-- In every run of careful calls the table is in order, and the next careful call ends exactly the
slot it is to end and, if it is an `mq_open` that fails, changes nothing. -/
theorem tabled (limit : Nat) (fits : limit ≤ ushrtMax) (state : Mqueues)
    (reached : Reachable (step limit) (fun state call => state.meets limit call = true)
      (· = initial limit) state) : state.Tabled ∧ ∀ call, state.meets limit call = true →
      ∃ result next, state.call limit call = some (result, next) ∧ next.Tabled ∧
        Mqueues.Lives limit state next call ∧
        ∀ mqName openFlag attr granting errno, call = .mqOpen mqName openFlag attr granting →
          result = .error errno → Mqueues.Unchanged state next := by
  have sound := Mqueues.sound_of_reached fits reached
  refine ⟨sound.isTabled, fun call careful => ?_⟩
  obtain ⟨result, next, called, keeps, lives⟩ := Mqueues.call_keeps fits sound careful
  exact ⟨result, next, called, keeps.isTabled, lives⟩

def sample (nameMemory : Bool) : Call :=
  .mqOpen (some [0x2f, 0x71]) oCreat none ⟨true, nameMemory, some 4096, .freed⟩

/-- A queue is created, unlinked and closed. -/
theorem tabled_sample : ∃ state, execute (step 6) (Mqueues.meets 6) (initial 6) [sample true,
        .mqUnlink (some [0x2f, 0x71]) .freed, .mqClose (some 4096) true .freed] = some state ∧
      state.Tabled := by
  refine ⟨_, rfl, (tabled 6 (by decide) _ ?_).1⟩
  exact Reachable.of_execute (fun _ _ holds => holds) [sample true,
    .mqUnlink (some [0x2f, 0x71]) .freed, .mqClose (some 4096) true .freed] (.start rfl) rfl

/-- Without memory for the name the kernel queue is left behind; and so it is when a task is in it
at the last close after the unlink. -/
theorem queue_left_behind :
    (∃ next, (initial 6).call 6 (sample false) = some (.error .ENOMEM, next) ∧
      (next.table 0).inUse = false ∧ next.inUsed 0 = true ∧ ¬next.Tabled) ∧
    ∃ state, execute (step 6) Mqueues.offered (initial 6) [sample true,
        .mqUnlink (some [0x2f, 0x71]) .freed, .mqClose (some 4096) true .inUse] = some state ∧
      (state.table 0).inUse = false ∧ state.inUsed 0 = true ∧ ¬state.Tabled := by
  refine ⟨⟨_, rfl, rfl, rfl, fun order => ?_⟩, _, rfl, rfl, rfl, fun order => ?_⟩
  · exact Bool.false_ne_true ((order.used 0).mpr rfl)
  · exact Bool.false_ne_true ((order.used 0).mpr rfl)

end TowerSafe.Mqueue
