/-
This file embeds the power-management locks of `los_pm.c` and keeps their accounts over whole
runs: the global count is the sum of the counts of the locks on the list, a lock is on the list as
long as its count is positive, and a request or a release that fails changes nothing. A request
writes the list before it looks at the global limit, so this needs that no request comes to that
limit; and a timed request whose timer does not start has to find its lock when it gives it back.

What the software timers do is free in the model: whether a timer can be created and started, and
when one expires. The event that is written when the global count comes to zero is left out.
-/

import Mathlib
import TowerSafe.Library.Transition

namespace TowerSafe.PmLock

open Library List Option

/-! ### The locks -/

def osPmLockMax : Nat := 0xFFFF

/-- The error codes of the calls; `swtmr` stands for those of the timer calls. -/
inductive Errno where
  | nok
  | pmInvalidParam
  | pmNotLock
  | pmAlreadyLock
  | swtmr
  deriving DecidableEq

/-- What a call returns: `LOS_OK` or an error code. -/
inductive Ret where
  | ok
  | error (code : Errno)
  deriving DecidableEq

/-- `OsPmLockCB`; a lock that is not timed has no timer, which is `OS_INVALID`. -/
structure OsPmLockCB where
  name : String
  count : Nat
  swtmrID : Option Nat
  deriving DecidableEq

/-- The part of `LosPmCB` that locks are about: the global count and the list. -/
structure LosPmCB where
  lock : Nat
  lockList : List OsPmLockCB
  deriving DecidableEq

/-- Change the first lock of a name in a list, or take it out. -/
def changeFirst (name : String) (change : OsPmLockCB → Option OsPmLockCB) :
    List OsPmLockCB → List OsPmLockCB
  | [] => []
  | lock :: rest =>
      if lock.name = name then (change lock).toList ++ rest
      else lock :: changeFirst name change rest

namespace LosPmCB

variable (pm : LosPmCB)

def find (name : String) : Option OsPmLockCB :=
  pm.lockList.find? fun lock => lock.name = name

def setCount (name : String) (count : Nat) : LosPmCB :=
  { pm with
    lockList := changeFirst name (fun lock => some { lock with count := count }) pm.lockList }

/-- `LOS_ListTailInsert` of a new lock. -/
def insert (lock : OsPmLockCB) : LosPmCB :=
  { pm with lockList := pm.lockList ++ [lock] }

/-- The end of `OsPmLockRequest`: the global count. -/
def countLock : LosPmCB × Ret :=
  if pm.lock < osPmLockMax then ({ pm with lock := pm.lock + 1 }, .ok)
  else (pm, .error .pmNotLock)

/-- `OsPmLockRequest`; `memory` is whether a lock can be allocated. -/
def osPmLockRequest (name : String) (swtmrID : Option Nat) (memory : Bool) : LosPmCB × Ret :=
  match pm.find name with
  | none =>
      if memory then (pm.insert ⟨name, 1, swtmrID⟩).countLock
      else (pm, .error .nok)
  | some lock =>
      let count := if lock.count < osPmLockMax then lock.count + 1 else lock.count
      if lock.swtmrID.isSome ∧ count > 1 then
        (pm.setCount name (count - 1), .error .pmAlreadyLock)
      else (pm.setCount name count).countLock

/-- The part of `LOS_PmLockRelease` for one lock: it is taken off the list when its count comes to
zero. -/
def releaseLock (lock : OsPmLockCB) : LosPmCB :=
  if lock.count > 0 then
    if lock.count - 1 = 0 then
      { pm with lockList := changeFirst lock.name (fun _ => none) pm.lockList }
    else pm.setCount lock.name (lock.count - 1)
  else pm

/-- `LOS_PmLockRelease` of a name. -/
def losPmLockRelease (name : String) : LosPmCB × Ret :=
  match pm.find name with
  | none => (pm, .error .pmNotLock)
  | some lock =>
      if pm.lock > 0 then ({ pm.releaseLock lock with lock := pm.lock - 1 }, .ok)
      else (pm.releaseLock lock, .error .pmNotLock)

/-- The count of the lock of a name, zero when there is none on the list. -/
def countOf (name : String) : Nat :=
  ((pm.find name).map OsPmLockCB.count).getD 0

def total : Nat :=
  (pm.lockList.map OsPmLockCB.count).sum

end LosPmCB

/-! ### The calls -/

/-- Where a task is in `LOS_PmTimeLockRequest`: elsewhere, after the creation of the timer, after the
request of the lock, or after the timer did not start. -/
inductive Pc where
  | user
  | created (name : String) (swtmrID : Nat)
  | locked (name : String)
  | notStarted (name : String)
  deriving DecidableEq

/-- The critical sections on the locks: a request, a release, and the release of a timed request
that gives its lock back. -/
inductive Kind where
  | request
  | release
  | giveBack
  deriving DecidableEq

/-- A critical section on a lock, with the locks before and after it. -/
structure Section where
  kind : Kind
  name : String
  ret : Ret
  before : LosPmCB
  after : LosPmCB

/-- The locks, where every task is in its call, and the critical sections, latest first. -/
structure Machine where
  pm : LosPmCB
  pc : Nat → Pc
  log : List Section

/-- A step of a task, or of the timer task. A name that is `none` is `NULL`. -/
inductive Action where
  /-- `LOS_PmLockRequest`. -/
  | request (task : Nat) (name : Option String) (memory : Bool)
  /-- `LOS_PmLockRelease`. -/
  | release (task : Nat) (name : Option String)
  /-- `LOS_PmTimeLockRequest` up to the result of `LOS_SwtmrCreate`. -/
  | timeRequest (task : Nat) (name : Option String) (millisecond : Nat) (created : Option Nat)
  /-- `LOS_PmTimeLockRequest` comes to `OsPmLockRequest`. -/
  | timeLock (task : Nat) (memory : Bool)
  /-- `LOS_PmTimeLockRequest` comes to `LOS_SwtmrStart`, with its result. -/
  | timeStart (task : Nat) (started : Bool)
  /-- `LOS_PmTimeLockRequest` comes to its `LOS_PmLockRelease`. -/
  | giveBack (task : Nat)
  /-- A timer expires, and the timer task runs `OsPmSwtmrHandler`. -/
  | expire (name : String)
  deriving DecidableEq

namespace Machine

variable (machine : Machine)

def setPc (task : Nat) (pc : Pc) : Machine :=
  { machine with pc := Function.update machine.pc task pc }

/-- Run a critical section. -/
def enter (kind : Kind) (name : String) (result : LosPmCB × Ret) : Machine :=
  { machine with
    pm := result.1
    log := ⟨kind, name, result.2, machine.pm, result.1⟩ :: machine.log }

def step : Action → Option Machine
  | .request task name memory =>
      if machine.pc task ≠ .user then none
      else
        match name with
        | none => some machine
        | some name =>
            some (machine.enter .request name (machine.pm.osPmLockRequest name none memory))
  | .release task name =>
      if machine.pc task ≠ .user then none
      else
        match name with
        | none => some machine
        | some name => some (machine.enter .release name (machine.pm.losPmLockRelease name))
  | .timeRequest task name millisecond created =>
      if machine.pc task ≠ .user then none
      else
        match name, created with
        | some name, some swtmrID =>
            if millisecond = 0 then some machine
            else some (machine.setPc task (.created name swtmrID))
        | _, _ => some machine
  | .timeLock task memory =>
      match machine.pc task with
      | .created name swtmrID =>
          let result := machine.pm.osPmLockRequest name (some swtmrID) memory
          some ((machine.enter .request name result).setPc task
            (if result.2 = .ok then .locked name else .user))
      | _ => none
  | .timeStart task started =>
      match machine.pc task with
      | .locked name => some (machine.setPc task (if started then .user else .notStarted name))
      | _ => none
  | .giveBack task =>
      match machine.pc task with
      | .notStarted name =>
          some ((machine.enter .giveBack name (machine.pm.losPmLockRelease name)).setPc task .user)
      | _ => none
  | .expire name => some (machine.enter .release name (machine.pm.losPmLockRelease name))

end Machine

/-! ### The accounts -/

/-- The locks on the list are counted, and a timed lock is counted once. -/
structure LosPmCB.Accounts (pm : LosPmCB) : Prop where
  total : pm.lock = pm.total
  bounded : pm.lock ≤ osPmLockMax
  positive : ∀ lock ∈ pm.lockList, 0 < lock.count
  timed : ∀ lock ∈ pm.lockList, lock.swtmrID.isSome = true → lock.count = 1
  distinct : (pm.lockList.map OsPmLockCB.name).Nodup

namespace LosPmCB

variable {pm : LosPmCB} {name other : String} {lock : OsPmLockCB}

theorem exists_split (found : pm.find name = some lock) :
    ∃ front back, pm.lockList = front ++ lock :: back ∧ lock.name = name ∧
      (∀ one ∈ front, one.name ≠ name) ∧
      ∀ change, changeFirst name change pm.lockList = front ++ (change lock).toList ++ back := by
  obtain ⟨named, front, back, split, before⟩ := List.find?_eq_some_iff_append.mp found
  rw [decide_eq_true_eq] at named
  simp only [Bool.not_eq_true', decide_eq_false_iff_not] at before
  refine ⟨front, back, split, named, before, fun change => ?_⟩
  rw [split]
  clear split found
  induction front with
  | nil => rw [nil_append, changeFirst, if_pos named, nil_append]
  | cons one rest hypothesis =>
    rw [cons_append, changeFirst, if_neg (before one mem_cons_self),
      hypothesis fun two member => before two (mem_cons_of_mem _ member)]
    rfl

theorem find_eq_none_iff : pm.find name = none ↔ ∀ lock ∈ pm.lockList, lock.name ≠ name := by
  simp [find, List.find?_eq_none]

theorem countOf_found (found : pm.find name = some lock) : pm.countOf name = lock.count := by
  rw [countOf, found]
  rfl

theorem Accounts.listed (accounts : pm.Accounts) :
    name ∈ pm.lockList.map OsPmLockCB.name ↔ 0 < pm.countOf name := by
  cases found : pm.find name with
  | none =>
    rw [countOf, found]
    refine iff_of_false (fun member => ?_) (by simp)
    obtain ⟨lock, member, named⟩ := mem_map.mp member
    exact find_eq_none_iff.mp found lock member named
  | some lock =>
    rw [countOf, found]
    have member := mem_of_find?_eq_some found
    have named := List.find?_some found
    rw [decide_eq_true_eq] at named
    exact iff_of_true (mem_map.mpr ⟨lock, member, named⟩) (accounts.positive lock member)

theorem total_split {front middle back : List OsPmLockCB}
    (split : pm.lockList = front ++ middle ++ back) :
    pm.total = (front.map OsPmLockCB.count).sum + (middle.map OsPmLockCB.count).sum +
      (back.map OsPmLockCB.count).sum := by
  rw [total, split]
  simp only [map_append, sum_append]

theorem Accounts.change {next : LosPmCB} {front back : List OsPmLockCB}
    {changed : Option OsPmLockCB} (accounts : pm.Accounts)
    (split : pm.lockList = front ++ lock :: back)
    (becomes : next.lockList = front ++ changed.toList ++ back)
    (counted : next.lock + lock.count = pm.lock + (changed.map OsPmLockCB.count).getD 0)
    (bounded : next.lock ≤ osPmLockMax)
    (same : ∀ one ∈ changed, one.name = lock.name ∧ 0 < one.count ∧
      (one.swtmrID.isSome = true → one.count = 1)) : next.Accounts := by
  have member : ∀ one ∈ next.lockList, one ∈ pm.lockList ∨ one ∈ changed := by
    intro one inside
    rw [becomes] at inside
    rw [split]
    simp only [mem_append, mem_cons, mem_toList] at inside ⊢
    tauto
  refine ⟨?_, bounded, ?_, ?_, ?_⟩
  · have before := accounts.total
    rw [@total_split _ front [lock] back (by simpa using split)] at before
    rw [total_split becomes]
    cases changed <;> simp at before counted ⊢ <;> omega
  · intro one inside
    rcases member one inside with old | new
    · exact accounts.positive one old
    · exact (same one new).2.1
  · intro one inside timer
    rcases member one inside with old | new
    · exact accounts.timed one old timer
    · exact (same one new).2.2 timer
  · have distinct := accounts.distinct
    rw [split, map_append] at distinct
    rw [becomes]
    cases changed with
    | none =>
      refine distinct.sublist ?_
      simp
    | some one =>
      rw [toList_some, append_assoc, map_append, singleton_append,
        map_cons, (same one rfl).1]
      exact distinct

theorem countOf_split {front middle back : List OsPmLockCB}
    (split : pm.lockList = front ++ middle ++ back) (other : ∀ one ∈ middle, one.name ≠ name) :
    pm.countOf name =
      (((front ++ back).find? fun one => one.name = name).map OsPmLockCB.count).getD 0 := by
  have middle_none : middle.find? (fun one => one.name = name) = none := by
    simpa [List.find?_eq_none] using other
  rw [countOf, find, split, List.find?_append, List.find?_append, List.find?_append, middle_none,
    or_none]

theorem countOf_first {front back : List OsPmLockCB} (split : pm.lockList = front ++ lock :: back)
    (named : lock.name = name) (before : ∀ one ∈ front, one.name ≠ name) :
    pm.countOf name = lock.count := by
  have front_none : front.find? (fun one => one.name = name) = none := by
    simpa [List.find?_eq_none] using before
  rw [countOf, find, split, List.find?_append, front_none,
    List.find?_cons_of_pos (by simpa using named)]
  rfl

/-- `more` is `fewer` with one more count of a lock. -/
structure Counted (name : String) (fewer more : LosPmCB) : Prop where
  lock : more.lock = fewer.lock + 1
  count : more.countOf name = fewer.countOf name + 1
  others : ∀ other, other ≠ name → more.countOf other = fewer.countOf other

/-- A request that comes to the limit of the global count after it has written the list: that of a
new lock, or of a lock without a timer that can be counted once more. -/
def Saturated (pm : LosPmCB) (name : String) (memory : Bool) : Prop :=
  pm.lock = osPmLockMax ∧
    match pm.find name with
    | none => memory = true
    | some lock => lock.swtmrID = none ∧ lock.count < osPmLockMax

instance (pm : LosPmCB) (name : String) (memory : Bool) :
    Decidable (pm.Saturated name memory) := by
  unfold Saturated
  cases pm.find name <;> infer_instance

theorem Accounts.count_le (accounts : pm.Accounts) (found : pm.find name = some lock) :
    lock.count ≤ pm.lock := by
  obtain ⟨front, back, split, -⟩ := exists_split found
  rw [accounts.total, @total_split _ front [lock] back (by simpa using split)]
  simp
  omega

theorem setCount_same (found : pm.find name = some lock) : pm.setCount name lock.count = pm := by
  obtain ⟨front, back, split, -, -, becomes⟩ := exists_split found
  rw [setCount, becomes]
  obtain ⟨count, lockList⟩ := pm
  obtain rfl : lockList = front ++ lock :: back := split
  simp

theorem Accounts.setCount {next : LosPmCB} {count : Nat} (accounts : pm.Accounts)
    (found : pm.find name = some lock) (list : next.lockList = (pm.setCount name count).lockList)
    (positive : 0 < count) (untimed : lock.swtmrID = none)
    (counted : next.lock + lock.count = pm.lock + count) (bounded : next.lock ≤ osPmLockMax) :
    next.Accounts := by
  obtain ⟨front, back, split, -, -, becomes⟩ := exists_split found
  have after := list.trans (becomes fun lock => some { lock with count := count })
  refine accounts.change split after (by simpa using counted) bounded fun one same => ?_
  obtain rfl := some.inj (mem_def.mp same)
  exact ⟨rfl, positive, by simp [untimed]⟩

theorem countOf_setCount {next : LosPmCB} {count : Nat} (found : pm.find name = some lock)
    (list : next.lockList = (pm.setCount name count).lockList) (other : String) :
    next.countOf other = if other = name then count else pm.countOf other := by
  obtain ⟨front, back, split, named, before, becomes⟩ := exists_split found
  have after := list.trans (becomes fun lock => some { lock with count := count })
  by_cases same : other = name
  · rw [if_pos same, same]
    exact @countOf_first _ _ { lock with count := count } front back (after.trans (by simp)) named
      before
  · have different : lock.name ≠ other := fun equal => same (equal.symm.trans named)
    rw [if_neg same, countOf_split after (by simpa using different),
      @countOf_split _ _ front [lock] back (split.trans (by simp)) (by simpa using different)]

theorem Accounts.insert {next : LosPmCB} {swtmrID : Option Nat} (accounts : pm.Accounts)
    (absent : pm.find name = none) (list : next.lockList = (pm.insert ⟨name, 1, swtmrID⟩).lockList)
    (counted : next.lock = pm.lock + 1) (bounded : next.lock ≤ osPmLockMax) : next.Accounts := by
  have free := find_eq_none_iff.mp absent
  have member : ∀ one ∈ next.lockList, one ∈ pm.lockList ∨ one = ⟨name, 1, swtmrID⟩ := by
    intro one inside
    rw [list] at inside
    simpa [LosPmCB.insert] using inside
  refine ⟨?_, bounded, ?_, ?_, ?_⟩
  · have sum : next.total = pm.total + 1 := by
      simp [LosPmCB.total, list, LosPmCB.insert]
    rw [counted, accounts.total, sum]
  · intro one inside
    rcases member one inside with old | rfl
    · exact accounts.positive one old
    · exact Nat.one_pos
  · intro one inside timer
    rcases member one inside with old | rfl
    · exact accounts.timed one old timer
    · rfl
  · rw [list, LosPmCB.insert, map_append]
    refine accounts.distinct.append (nodup_singleton _) ?_
    intro one inside last
    obtain ⟨lock, old, rfl⟩ := mem_map.mp inside
    exact free lock old (mem_singleton.mp last)

theorem countOf_insert {next : LosPmCB} {swtmrID : Option Nat} (absent : pm.find name = none)
    (list : next.lockList = (pm.insert ⟨name, 1, swtmrID⟩).lockList) (other : String) :
    next.countOf other = if other = name then pm.countOf name + 1 else pm.countOf other := by
  by_cases same : other = name
  · rw [if_pos same, same, @countOf_first _ name ⟨name, 1, swtmrID⟩ _ _ list rfl
      (find_eq_none_iff.mp absent), countOf, absent]
    rfl
  · rw [if_neg same, @countOf_split _ _ pm.lockList [⟨name, 1, swtmrID⟩] []
      (list.trans (by simp [LosPmCB.insert])) (by simpa using Ne.symm same), append_nil]
    rfl

/-- What the critical section of a request does to locks whose accounts are right. -/
structure Requested (name : String) (pm : LosPmCB) (result : LosPmCB × Ret) : Prop where
  accounts : result.1.Accounts
  counted : result.2 = .ok → Counted name pm result.1
  unchanged : result.2 ≠ .ok → result.1 = pm

/-- What the critical section of a release does to locks whose accounts are right. -/
structure Released (name : String) (pm : LosPmCB) (result : LosPmCB × Ret) : Prop where
  accounts : result.1.Accounts
  counted : result.2 = .ok → Counted name result.1 pm
  unchanged : result.2 ≠ .ok → result.1 = pm
  found : name ∈ pm.lockList.map OsPmLockCB.name → result.2 = .ok

theorem Requested.refused (accounts : pm.Accounts) (code : Errno) :
    Requested name pm (pm, .error code) :=
  ⟨accounts, nofun, fun _ => rfl⟩

theorem Accounts.requested (accounts : pm.Accounts) {memory : Bool} (swtmrID : Option Nat)
    (unsaturated : ¬pm.Saturated name memory) :
    Requested name pm (pm.osPmLockRequest name swtmrID memory) := by
  have bounded := accounts.bounded
  cases found : pm.find name with
  | none =>
    rw [Saturated, found] at unsaturated
    rw [osPmLockRequest, found]
    cases memory with
    | false => exact .refused accounts _
    | true =>
      have room : pm.lock < osPmLockMax :=
        Nat.lt_of_le_of_ne bounded fun full => unsaturated ⟨full, rfl⟩
      simp only [if_pos, countLock]
      rw [if_pos (show (pm.insert ⟨name, 1, swtmrID⟩).lock < osPmLockMax from room)]
      refine ⟨accounts.insert found rfl rfl room, fun _ => ⟨rfl, ?_, ?_⟩, absurd rfl⟩
      · exact (countOf_insert found rfl name).trans (if_pos rfl)
      · intro other different
        exact (countOf_insert found rfl other).trans (if_neg different)
  | some lock =>
    rw [Saturated, found] at unsaturated
    have below := accounts.count_le found
    have member := mem_of_find?_eq_some found
    simp only [osPmLockRequest, found]
    cases timer : lock.swtmrID with
    | some swtmr =>
      have once := accounts.timed lock member (by simp [timer])
      have same := setCount_same found
      rw [once] at same
      simp only [once, osPmLockMax]
      simpa [same] using Requested.refused accounts .pmAlreadyLock
    | none =>
      simp only [isSome_none, Bool.false_eq_true, false_and, if_false]
      by_cases more : lock.count < osPmLockMax
      · have room : pm.lock < osPmLockMax :=
          Nat.lt_of_le_of_ne bounded fun full => unsaturated ⟨full, timer, more⟩
        rw [if_pos more, countLock,
          if_pos (show (pm.setCount name (lock.count + 1)).lock < osPmLockMax from room)]
        refine ⟨accounts.setCount found rfl (Nat.succ_pos _) timer
          (show pm.lock + 1 + lock.count = _ by omega) room, fun _ => ⟨rfl, ?_, ?_⟩, absurd rfl⟩
        · rw [countOf_found found]
          exact (countOf_setCount found rfl name).trans (if_pos rfl)
        · intro other different
          exact (countOf_setCount found rfl other).trans (if_neg different)
      · rw [if_neg more, setCount_same found, countLock, if_neg (by omega)]
        exact .refused accounts _

theorem Accounts.countOf_removed {next : LosPmCB} (accounts : pm.Accounts)
    (found : pm.find name = some lock)
    (list : next.lockList = changeFirst name (fun _ => none) pm.lockList) (other : String) :
    next.countOf other = if other = name then 0 else pm.countOf other := by
  obtain ⟨front, back, split, named, before, becomes⟩ := exists_split found
  have after : next.lockList = front ++ [] ++ back := list.trans (becomes _)
  rw [countOf_split after (by simp)]
  by_cases same : other = name
  · have distinct := accounts.distinct
    rw [split, map_append, map_cons, nodup_append, nodup_cons] at distinct
    have none : (front ++ back).find? (fun one => one.name = name) = none := by
      refine List.find?_eq_none.mpr fun one member => ?_
      rw [decide_eq_true_eq]
      rcases mem_append.mp member with first | last
      · exact before one first
      · intro equal
        exact distinct.2.1.1 (named.trans equal.symm ▸ mem_map_of_mem last)
    rw [if_pos same, same, none]
    rfl
  · have different : lock.name ≠ other := fun equal => same (equal.symm.trans named)
    rw [if_neg same, @countOf_split _ _ front [lock] back (split.trans (by simp))
      (by simpa using different)]

theorem Accounts.released (accounts : pm.Accounts) (name : String) :
    Released name pm (pm.losPmLockRelease name) := by
  cases found : pm.find name with
  | none =>
    rw [losPmLockRelease, found]
    refine ⟨accounts, nofun, fun _ => rfl, fun listed => ?_⟩
    obtain ⟨lock, member, named⟩ := mem_map.mp listed
    exact absurd named (find_eq_none_iff.mp found lock member)
  | some lock =>
    obtain ⟨front, back, split, named, before, becomes⟩ := exists_split found
    have member := mem_of_find?_eq_some found
    have positive := accounts.positive lock member
    have below := accounts.count_le found
    have bounded := accounts.bounded
    simp only [losPmLockRelease, found]
    rw [if_pos (show pm.lock > 0 by omega), releaseLock, if_pos positive, named]
    by_cases last : lock.count - 1 = 0
    · rw [if_pos last]
      refine ⟨@Accounts.change _ _ _ _ _ none accounts split (becomes _) ?_ ?_ nofun,
        fun _ => ⟨?_, ?_, fun other different => ?_⟩, absurd rfl, fun _ => rfl⟩
      · show pm.lock - 1 + lock.count = pm.lock + 0
        omega
      · show pm.lock - 1 ≤ osPmLockMax
        omega
      · show pm.lock = pm.lock - 1 + 1
        omega
      · rw [countOf_found found]
        refine Eq.trans ?_ (congrArg (· + 1)
          ((accounts.countOf_removed found rfl name).trans (if_pos rfl)).symm)
        omega
      · exact ((accounts.countOf_removed found rfl other).trans (if_neg different)).symm
    · have untimed : lock.swtmrID = none := by
        refine eq_none_iff_forall_ne_some.mpr fun swtmrID timer => last ?_
        rw [accounts.timed lock member (by simp [timer])]
      rw [if_neg last]
      refine ⟨accounts.setCount found rfl (by omega) untimed ?_ ?_,
        fun _ => ⟨?_, ?_, fun other different => ?_⟩, absurd rfl, fun _ => rfl⟩
      · show pm.lock - 1 + lock.count = pm.lock + (lock.count - 1)
        omega
      · show pm.lock - 1 ≤ osPmLockMax
        omega
      · show pm.lock = pm.lock - 1 + 1
        omega
      · rw [countOf_found found]
        refine Eq.trans ?_ (congrArg (· + 1)
          ((countOf_setCount found rfl name).trans (if_pos rfl)).symm)
        omega
      · exact ((countOf_setCount found rfl other).trans (if_neg different)).symm

end LosPmCB

/-! ### Runs -/

/-- What a section of a run has done: one that failed left the locks as they were, and one that
succeeded changed the count of one lock by one. A timed request that gives its lock back does not
fail. -/
structure Section.Clean (taken : Section) : Prop where
  unchanged : taken.ret ≠ .ok → taken.after = taken.before
  counted : taken.ret = .ok →
    if taken.kind = .request then LosPmCB.Counted taken.name taken.before taken.after
    else LosPmCB.Counted taken.name taken.after taken.before
  given : taken.kind = .giveBack → taken.ret = .ok

/-- No request comes to the limit of the global count after it has written the list, and a timed
request that gives its lock back finds it on the list. -/
def InLimits (machine : Machine) : Action → Prop
  | .request _ (some name) memory => ¬machine.pm.Saturated name memory
  | .timeLock task memory =>
      match machine.pc task with
      | .created name _ => ¬machine.pm.Saturated name memory
      | _ => True
  | .giveBack task =>
      match machine.pc task with
      | .notStarted name => name ∈ machine.pm.lockList.map OsPmLockCB.name
      | _ => True
  | _ => True

/-- The system starts without locks, and no task is in a timed request. -/
def Initial (machine : Machine) : Prop :=
  machine.pm = ⟨0, []⟩ ∧ (∀ task, machine.pc task = .user) ∧ machine.log = []

instance (machine : Machine) (action : Action) : Decidable (InLimits machine action) := by
  cases action with
  | request _ name memory => cases name <;> unfold InLimits <;> infer_instance
  | timeLock task memory => unfold InLimits; dsimp only; split <;> infer_instance
  | giveBack task => unfold InLimits; dsimp only; split <;> infer_instance
  | _ => exact .isTrue trivial

/-- What every state of a run keeps. -/
structure Machine.Balanced (machine : Machine) : Prop where
  accounts : machine.pm.Accounts
  clean : ∀ taken ∈ machine.log, taken.Clean

namespace Machine.Balanced

variable {machine : Machine} {name : String} {result : LosPmCB × Ret}

section

variable (balanced : machine.Balanced)
include balanced

theorem enter {kind : Kind} (accounts : result.1.Accounts)
    (clean : Section.Clean ⟨kind, name, result.2, machine.pm, result.1⟩) :
    (machine.enter kind name result).Balanced := by
  refine ⟨accounts, fun taken member => ?_⟩
  rcases mem_cons.mp member with rfl | old
  · exact clean
  · exact balanced.clean taken old

theorem setPc (task : Nat) (pc : Pc) : (machine.setPc task pc).Balanced :=
  ⟨balanced.accounts, balanced.clean⟩

theorem request {memory : Bool} (swtmrID : Option Nat)
    (unsaturated : ¬machine.pm.Saturated name memory) :
    (machine.enter .request name (machine.pm.osPmLockRequest name swtmrID memory)).Balanced := by
  have requested := balanced.accounts.requested swtmrID unsaturated
  exact balanced.enter requested.accounts
    ⟨requested.unchanged, fun granted => by simpa using requested.counted granted, nofun⟩

theorem release (name : String) :
    (machine.enter .release name (machine.pm.losPmLockRelease name)).Balanced := by
  have released := balanced.accounts.released name
  exact balanced.enter released.accounts
    ⟨released.unchanged, fun granted => by simpa using released.counted granted, nofun⟩

theorem giveBack (found : name ∈ machine.pm.lockList.map OsPmLockCB.name) :
    (machine.enter .giveBack name (machine.pm.losPmLockRelease name)).Balanced := by
  have released := balanced.accounts.released name
  exact balanced.enter released.accounts
    ⟨released.unchanged, fun granted => by simpa using released.counted granted,
      fun _ => released.found found⟩

theorem step {next : Machine} {action : Action}
    (meets : InLimits machine action) (result : machine.step action = some next) :
    next.Balanced := by
  cases action with
  | request task name memory =>
    cases name <;> simp only [Machine.step, ite_none_left_eq_some] at result
    · exact some.inj result.2 ▸ balanced
    · exact some.inj result.2 ▸ balanced.request none meets
  | release task name =>
    cases name <;> simp only [Machine.step, ite_none_left_eq_some] at result
    · exact some.inj result.2 ▸ balanced
    · exact some.inj result.2 ▸ balanced.release _
  | timeRequest task name millisecond created =>
    cases name <;> cases created <;>
      simp only [Machine.step, ite_none_left_eq_some] at result
    · exact some.inj result.2 ▸ balanced
    · exact some.inj result.2 ▸ balanced
    · exact some.inj result.2 ▸ balanced
    · obtain ⟨-, result⟩ := result
      split at result
      · exact some.inj result ▸ balanced
      · exact some.inj result ▸ balanced.setPc task _
  | timeLock task memory =>
    cases pc : machine.pc task <;> simp only [Machine.step, InLimits, pc] at result meets
    case created name swtmrID =>
      exact some.inj result ▸ (balanced.request (some swtmrID) meets).setPc task _
    all_goals exact absurd result nofun
  | timeStart task started =>
    cases pc : machine.pc task <;> simp only [Machine.step, pc] at result
    case locked name => exact some.inj result ▸ balanced.setPc task _
    all_goals exact absurd result nofun
  | giveBack task =>
    cases pc : machine.pc task <;> simp only [Machine.step, InLimits, pc] at result meets
    case notStarted name => exact some.inj result ▸ (balanced.giveBack meets).setPc task _
    all_goals exact absurd result nofun
  | expire name => exact some.inj result ▸ balanced.release name

end

end Machine.Balanced

theorem Initial.balanced {machine : Machine} (initial : Initial machine) : machine.Balanced := by
  obtain ⟨locks, -, log⟩ := initial
  refine ⟨?_, by simp [log]⟩
  rw [locks]
  exact ⟨rfl, Nat.zero_le _, by simp, by simp, by simp⟩

end TowerSafe.PmLock
