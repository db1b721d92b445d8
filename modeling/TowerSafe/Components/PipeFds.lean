/-
This file embeds how `pipe.c` accounts for devices and descriptors: the bitmaps of numbers and of
descriptors, the table of descriptors, the list of devices with their counts, and the calls that
make, open and close. In every run of careful calls the counts of a device are the numbers of
descriptors that refer to it, and a call that fails leaves everything as it was.
-/

import Mathlib
import TowerSafe.Library.Transition
import TowerSafe.Library.Bitmap

namespace TowerSafe.PipeFds

open Library List Option
open Function (update update_self update_of_ne)

/-! ### Devices and descriptors -/

def pipeDevNum : Nat := 32

def pipeFdNum : Nat := pipeDevNum * 2

/-- `PIPE_DEV_FD_BITMAP_LEN` words of 32 bits. -/
def pipeDevFdBits : Nat := (pipeFdNum / 32 + 1) * 32

def pipeDevPath : String := "/dev/pipe"

def oRdonly : Int := 0

def oWronly : Int := 1

inductive Errno
  | EINVAL
  | ENODEV
  | EBUSY
  | ENOMEM
  | EEXIST
  | ENOSPC
  deriving DecidableEq

/-- The fields of `struct PipeDev` that the calls account with. Of `ringBuffer`, whether there is
one. -/
structure PipeDev where
  devName : String
  num : Nat
  ringBuffer : Bool
  readerCnt : Nat
  writerCnt : Nat
  ref : Nat
  deriving DecidableEq

/-- `struct PipeFdDev`, with the address of the device. -/
structure PipeFdDev where
  dev : Option Nat
  openFlag : Int
  deriving DecidableEq

/-- The variables of `pipe.c`. The bitmaps are given bit by bit, the list of devices by addresses.
The devices that are allocated are those in `heap`. From `PIPE_FD_NUM` on, `devFd` is what lies
behind the table. -/
structure Tables where
  devNumBitmap : Nat → Bool
  devFdBitmap : Nat → Bool
  devFd : Nat → PipeFdDev
  devStartFd : Int
  devList : List Nat
  heap : Nat → Option PipeDev

def up (count : Nat) : Nat := (count + 1) % 2 ^ 32

def down (count : Nat) : Nat := (count + (2 ^ 32 - 1)) % 2 ^ 32

/-- What `PipeOpen` adds to the counts. -/
def PipeDev.opened (dev : PipeDev) (openFlag : Int) : PipeDev :=
  { dev with
    readerCnt := if openFlag = oRdonly then up dev.readerCnt else dev.readerCnt
    writerCnt :=
      if openFlag = oRdonly then dev.writerCnt
      else if openFlag = oWronly then up dev.writerCnt else dev.writerCnt
    ref := up dev.ref }

/-- What `PipeClose` takes from the counts. -/
def PipeDev.closed (dev : PipeDev) (openFlag : Int) : PipeDev :=
  { dev with
    readerCnt := if openFlag = oRdonly then down dev.readerCnt else dev.readerCnt
    writerCnt :=
      if openFlag = oRdonly then dev.writerCnt
      else if openFlag = oWronly then down dev.writerCnt else dev.writerCnt
    ref := down dev.ref }

/-- What `LOS_MemAlloc`, `LOS_MuxCreate` and `LOS_SemCreate` give to a new device. -/
structure Making where
  dev : Option Nat
  mutex : Bool
  readSem : Bool
  writeSem : Bool
  deriving DecidableEq

/-- How `open` goes: whether it returns before it calls `PipeOpen`, and whether there is memory for
the ring. -/
structure Opening where
  stopped : Option Errno
  memory : Bool
  deriving DecidableEq

namespace Tables

def pipeDevNumAlloc (tables : Tables) : Option (Nat × Tables) :=
  ((List.range pipeDevNum).find? fun devNum => !tables.devNumBitmap devNum).map fun devNum =>
    (devNum, { tables with devNumBitmap := update tables.devNumBitmap devNum true })

def pipeDevNumFree (tables : Tables) (devNum : Nat) : Tables :=
  if devNum < pipeDevNum then
    { tables with devNumBitmap := update tables.devNumBitmap devNum false }
  else tables

def pipeDevFind (tables : Tables) (path : String) : Option Nat :=
  tables.devList.find? fun addr => (tables.heap addr).any fun dev => dev.devName == path

/-- `PipeDevRegister`, with the name of the device. The device is on the heap from when it is in
the list. -/
def pipeDevRegister (tables : Tables) (making : Making) : Except Errno String × Tables :=
  match tables.pipeDevNumAlloc with
  | none => (.error .ENODEV, tables)
  | some (num, tables) =>
      match making.dev with
      | none => (.error .ENOMEM, tables.pipeDevNumFree num)
      | some dev =>
          let devName := pipeDevPath ++ toString num
          if (tables.pipeDevFind devName).isSome then
            (.error .EEXIST, tables.pipeDevNumFree num)
          else if making.mutex = false ∨ making.readSem = false ∨ making.writeSem = false then
            (.error .ENOSPC, tables.pipeDevNumFree num)
          else
            (.ok devName,
              { tables with
                devList := dev :: tables.devList
                heap := update tables.heap dev
                  (some ⟨devName, num, false, 0, 0, 0⟩) })

/-- `PipeDevUnregister`, of `NULL` or of a device. Whether the device is found makes no difference
to those who call it. -/
def pipeDevUnregister (tables : Tables) : Option Nat → Option Tables
  | none => some tables
  | some dev =>
      if dev ∈ tables.devList then
        (tables.heap dev).map fun found =>
          { tables.pipeDevNumFree found.num with
            devList := tables.devList.erase dev
            heap := update tables.heap dev none }
      else some tables

def pipeDevFdAlloc (tables : Tables) : Option (Nat × Tables) :=
  ((List.range pipeDevFdBits).find? fun fd => !tables.devFdBitmap fd).map fun fd =>
    (fd, { tables with devFdBitmap := update tables.devFdBitmap fd true })

def pipeDevFdFree (tables : Tables) (fd : Nat) : Tables :=
  { tables with devFdBitmap := update tables.devFdBitmap fd false }

/-- `PipeOpen`, with whether there is memory for a ring. -/
def pipeOpen (tables : Tables) (path : Option String) (openFlag minFd : Int) (memory : Bool) :
    Except Errno Int × Tables :=
  match path with
  | none => (.error .EINVAL, tables)
  | some path =>
      if openFlag ≠ oRdonly ∧ openFlag ≠ oWronly then (.error .EINVAL, tables)
      else
        match tables.pipeDevFind path with
        | none => (.error .ENODEV, tables)
        | some dev =>
            match tables.pipeDevFdAlloc with
            | none => (.error .EBUSY, tables)
            | some (fd, tables) =>
                let counted := (tables.heap dev).map fun found => found.opened openFlag
                let tables :=
                  { tables with
                    devFd := update tables.devFd fd ⟨some dev, openFlag⟩
                    devStartFd := minFd
                    heap := update tables.heap dev counted }
                if counted.any fun found => !found.ringBuffer then
                  if memory then
                    (.ok (fd + minFd),
                      { tables with
                        heap := update tables.heap dev
                          (counted.map fun found => { found with ringBuffer := true }) })
                  else (.error .ENOMEM, tables.pipeDevFdFree fd)
                else (.ok (fd + minFd), tables)

/-- `PipeFdDevGet`, with the place in the table. -/
def pipeFdDevGet (tables : Tables) (fd : Int) : Option Nat :=
  if fd < tables.devStartFd then none
  else if (pipeFdNum : Int) ≤ fd - tables.devStartFd then none
  else some (fd - tables.devStartFd).toNat

/-- `PipeFd2Dev`, with the place in the table. -/
def pipeFd2Dev (tables : Tables) (fd : Int) : Option (Nat × Nat) :=
  (tables.pipeFdDevGet fd).bind fun place => (tables.devFd place).dev.map fun dev => (place, dev)

/-- `PipeClose`, undefined when the device has been freed. -/
def pipeClose (tables : Tables) (fd : Int) : Option (Except Errno Unit × Tables) :=
  match tables.pipeFd2Dev fd with
  | none => some (.error .ENODEV, tables)
  | some (fd, dev) =>
      (tables.heap dev).bind fun found =>
        let closed := found.closed (tables.devFd fd).openFlag
        let tables :=
          { tables.pipeDevFdFree fd with
            devFd := update tables.devFd fd ⟨none, 0⟩
            heap := update tables.heap dev (some closed) }
        (if closed.ref = 0 then tables.pipeDevUnregister (some dev) else some tables).map
          fun tables => (.ok (), tables)

/-- `errno` after a call that leaves it alone unless it fails. -/
def errnoAfter (errno : Errno) : Except Errno Unit → Errno
  | .error later => later
  | .ok _ => errno

/-- `open` with the name of a device. -/
def openDev (tables : Tables) (devName : String) (openFlag minFd : Int) (opening : Opening) :
    Except Errno Int × Tables :=
  match opening.stopped with
  | some errno => (.error errno, tables)
  | none => tables.pipeOpen (some devName) openFlag minFd opening.memory

/-- `pipe`, where the descriptors of pipes begin at `minFd`. -/
def pipe (tables : Tables) (minFd : Int) (making : Making) (first second : Opening) :
    Option (Except Errno (List Int) × Tables) :=
  match tables.pipeDevRegister making with
  | (.error errno, tables) => some (.error errno, tables)
  | (.ok devName, tables) =>
      let dev := tables.pipeDevFind devName
      match tables.openDev devName oRdonly minFd first with
      | (.error errno, tables) =>
          (tables.pipeDevUnregister dev).map fun tables => (.error errno, tables)
      | (.ok readFd, tables) =>
          match tables.openDev devName oWronly minFd second with
          | (.error errno, tables) =>
              (tables.pipeDevUnregister dev).bind fun tables =>
                (tables.pipeClose readFd).map fun closed =>
                  (.error (errnoAfter errno closed.1), closed.2)
          | (.ok writeFd, tables) => some (.ok [readFd, writeFd], tables)

end Tables

/-- A call, with what the kernel and `open` give to it. -/
inductive Call
  | pipe (making : Making) (first second : Opening)
  | pipeOpen (path : Option String) (openFlag minFd : Int) (memory : Bool)
  | pipeClose (fd : Int)
  deriving DecidableEq

/-- What a call returns, the descriptors that it gives or an error, and the tables after it. -/
def Tables.call (pipeDevFd : Int) (tables : Tables) : Call →
    Option (Except Errno (List Int) × Tables)
  | .pipe making first second => tables.pipe pipeDevFd making first second
  | .pipeOpen path openFlag minFd memory =>
      let opened := tables.pipeOpen path openFlag minFd memory
      some (opened.1.map fun fd => [fd], opened.2)
  | .pipeClose fd =>
      (tables.pipeClose fd).map fun closed => (closed.1.map fun _ => [], closed.2)

def step (pipeDevFd : Int) (tables : Tables) (call : Call) : Option Tables :=
  (tables.call pipeDevFd call).map Prod.snd

def initial : Tables :=
  ⟨fun _ => false, fun _ => false, fun _ => ⟨none, 0⟩, 0, [], fun _ => none⟩

/-- A new device is given memory that is not in use. -/
def offered (tables : Tables) : Call → Bool
  | .pipe making _ _ => making.dev.all fun dev => (tables.heap dev).isNone
  | _ => true

/-! ### Counting descriptors -/

namespace Tables

/-- How many descriptors are allocated whose entries are so. -/
def count (tables : Tables) (test : PipeFdDev → Bool) : Nat :=
  (List.range pipeDevFdBits).countP fun fd => tables.devFdBitmap fd && test (tables.devFd fd)

def inUse (tables : Tables) : Nat :=
  (List.range pipeFdNum).countP fun fd => tables.devFdBitmap fd

/-- How many descriptors refer to a device, and how many of them in a mode. -/
def refers (tables : Tables) (dev : Nat) : Nat :=
  tables.count fun entry => entry.dev == some dev

def refersBy (tables : Tables) (dev : Nat) (openFlag : Int) : Nat :=
  tables.count fun entry => entry.dev == some dev && entry.openFlag == openFlag

/-- The accounts are in order. -/
structure Accounted (tables : Tables) : Prop where
  inside : ∀ fd, tables.devFdBitmap fd = true → fd < pipeFdNum
  registered : ∀ fd, tables.devFdBitmap fd = true →
    ∃ dev ∈ tables.devList, (tables.devFd fd).dev = some dev
  counted : ∀ dev ∈ tables.devList, ∃ found, tables.heap dev = some found ∧
    found.ref = tables.refers dev ∧ found.readerCnt = tables.refersBy dev oRdonly ∧
      found.writerCnt = tables.refersBy dev oWronly
  numbered : ∀ num, tables.devNumBitmap num = true ↔
    ∃ dev ∈ tables.devList, ∃ found, tables.heap dev = some found ∧ found.num = num
  distinct : ∀ dev ∈ tables.devList, ∀ other ∈ tables.devList, ∀ found foundOther,
    tables.heap dev = some found → tables.heap other = some foundOther →
      found.num = foundOther.num → dev = other

/-- A new device is made of everything it needs. -/
def makes (tables : Tables) (making : Making) : Bool :=
  tables.pipeDevNumAlloc.isSome && making.dev.isSome && making.mutex && making.readSem &&
    making.writeSem

/-- A call is careful when there are free entries in the table for the descriptors that it
allocates; and `pipe` also when, once it has made a device, either its first `open` does not reach
`PipeOpen`, or there is memory for the ring and the second one does. -/
def careful (tables : Tables) : Call → Bool
  | .pipe making first second =>
      !(tables.makes making && first.stopped.isNone) ||
        (first.memory && second.stopped.isNone && decide (tables.inUse + 1 < pipeFdNum))
  | .pipeOpen path openFlag _ _ =>
      (path.bind tables.pipeDevFind).isNone || (openFlag != oRdonly && openFlag != oWronly) ||
        decide (tables.inUse < pipeFdNum)
  | .pipeClose _ => true

end Tables

/-! ### The counts of a device -/

theorem up_eq {count size : Nat} (counts : count = size) (small : size ≤ 96) :
    up count = size + 1 := by
  rw [up]
  omega

theorem down_eq {count size : Nat} (counts : count = size + 1) (small : size ≤ 96) :
    down count = size := by
  rw [down]
  omega

section

variable {found : PipeDev} {size : Nat}

theorem opened_readerCnt (openFlag : Int) (counts : found.readerCnt = size) (small : size ≤ 96) :
    (found.opened openFlag).readerCnt = size + if openFlag == oRdonly then 1 else 0 := by
  simp only [PipeDev.opened, beq_iff_eq]
  split
  · exact up_eq counts small
  · exact counts

theorem opened_writerCnt (openFlag : Int) (counts : found.writerCnt = size) (small : size ≤ 96) :
    (found.opened openFlag).writerCnt = size + if openFlag == oWronly then 1 else 0 := by
  simp only [PipeDev.opened, beq_iff_eq]
  split
  · rename_i reads
    rw [if_neg (by rw [reads]; decide)]
    exact counts
  · split
    · exact up_eq counts small
    · exact counts

theorem closed_readerCnt (openFlag : Int)
    (counts : found.readerCnt = size + if openFlag == oRdonly then 1 else 0)
    (small : size ≤ 96) : (found.closed openFlag).readerCnt = size := by
  simp only [beq_iff_eq] at counts
  simp only [PipeDev.closed]
  split
  · rename_i reads
    rw [if_pos reads] at counts
    exact down_eq counts small
  · rename_i reads
    rw [if_neg reads] at counts
    exact counts

theorem closed_writerCnt (openFlag : Int)
    (counts : found.writerCnt = size + if openFlag == oWronly then 1 else 0)
    (small : size ≤ 96) : (found.closed openFlag).writerCnt = size := by
  simp only [beq_iff_eq] at counts
  simp only [PipeDev.closed]
  split
  · rename_i reads
    rw [if_neg (by rw [reads]; decide)] at counts
    exact counts
  split
  · rename_i writes
    rw [if_pos writes] at counts
    exact down_eq counts small
  · rename_i writes
    rw [if_neg writes] at counts
    exact counts

end

namespace Tables

variable {tables next : Tables} {fd dev num : Nat} {test : PipeFdDev → Bool} {found : PipeDev}

theorem count_le (tables : Tables) (test : PipeFdDev → Bool) : tables.count test ≤ 96 :=
  Nat.le_trans countP_le_length (Nat.le_of_eq length_range)

theorem count_set {entry : PipeFdDev} (inside : fd < pipeFdNum)
    (free : tables.devFdBitmap fd = false)
    (bits : next.devFdBitmap = update tables.devFdBitmap fd true)
    (entries : next.devFd = update tables.devFd fd entry) :
    next.count test = tables.count test + if test entry then 1 else 0 := by
  have bound : fd < pipeDevFdBits := Nat.lt_trans inside (by decide)
  have counted := @countP_range_of_update
    (fun index => tables.devFdBitmap index && test (tables.devFd index))
    (fun index => next.devFdBitmap index && test (next.devFd index)) fd pipeDevFdBits bound
    (by rw [free, Bool.false_and]) (fun index different => by
      rw [bits, entries, update_of_ne different, update_of_ne different])
  rw [count, counted, bits, entries, update_self, update_self]
  rfl

theorem count_clear {entry : PipeFdDev} (inside : fd < pipeFdNum)
    (taken : tables.devFdBitmap fd = true)
    (bits : next.devFdBitmap = update tables.devFdBitmap fd false)
    (entries : next.devFd = update tables.devFd fd entry) :
    tables.count test = next.count test + if test (tables.devFd fd) then 1 else 0 := by
  refine count_set inside (by rw [bits, update_self]) ?_ ?_
  · rw [bits, Function.update_idem, ← taken, Function.update_eq_self]
  · rw [entries, Function.update_idem, Function.update_eq_self]

theorem inUse_set (inside : fd < pipeFdNum) (free : tables.devFdBitmap fd = false)
    (bits : next.devFdBitmap = update tables.devFdBitmap fd true) :
    next.inUse = tables.inUse + 1 := by
  rw [inUse, countP_range_of_update inside free fun index different => by
    rw [bits, update_of_ne different], bits, update_self, if_pos rfl, inUse]

theorem pipeDevFdAlloc_eq (room : tables.inUse < pipeFdNum) :
    ∃ fd, tables.pipeDevFdAlloc = some (fd,
        { tables with devFdBitmap := update tables.devFdBitmap fd true }) ∧
      fd < pipeFdNum ∧ tables.devFdBitmap fd = false := by
  obtain ⟨fd, search, inside, free⟩ :=
    find?_range_of_countP_lt room (by decide : pipeFdNum ≤ pipeDevFdBits)
  exact ⟨fd, by rw [pipeDevFdAlloc, search, map_some], inside, free⟩

/-! ### What the calls keep -/

/-- The accounts, and what else holds between calls. -/
structure Sound (tables : Tables) : Prop extends tables.Accounted where
  nodup : tables.devList.Nodup
  listed : ∀ dev found, tables.heap dev = some found → dev ∈ tables.devList
  small : ∀ dev found, tables.heap dev = some found → found.num < pipeDevNum
  idle : ∀ fd, tables.devFdBitmap fd = false → (tables.devFd fd).dev = none

def Buffered (tables : Tables) : Prop :=
  ∀ dev found, tables.heap dev = some found → found.ringBuffer = true

/-- A device has been made. -/
def withDev (tables : Tables) (dev num : Nat) : Tables :=
  { tables with
    devNumBitmap := update tables.devNumBitmap num true
    devList := dev :: tables.devList
    heap := update tables.heap dev
      (some ⟨pipeDevPath ++ toString num, num, false, 0, 0, 0⟩) }

/-- A descriptor has been opened. -/
def entered (tables : Tables) (fd dev : Nat) (openFlag minFd : Int) (found : PipeDev) : Tables :=
  { tables with
    devFdBitmap := update tables.devFdBitmap fd true
    devFd := update tables.devFd fd ⟨some dev, openFlag⟩
    devStartFd := minFd
    heap := update tables.heap dev
      (some { found.opened openFlag with ringBuffer := true }) }

/-- A descriptor has been closed, and its device is still there. -/
def left (tables : Tables) (fd dev : Nat) (found : PipeDev) : Tables :=
  { tables with
    devFdBitmap := update tables.devFdBitmap fd false
    devFd := update tables.devFd fd ⟨none, 0⟩
    heap := update tables.heap dev (some (found.closed (tables.devFd fd).openFlag)) }

/-- A device has been unregistered. -/
def withoutDev (tables : Tables) (dev num : Nat) : Tables :=
  { tables with
    devNumBitmap := update tables.devNumBitmap num false
    devList := tables.devList.erase dev
    heap := update tables.heap dev none }

section

variable (tables : Tables) (fd dev num : Nat) (openFlag minFd : Int) (found : PipeDev)

@[simp] theorem withDev_heap : (tables.withDev dev num).heap dev =
    some ⟨pipeDevPath ++ toString num, num, false, 0, 0, 0⟩ :=
  update_self ..

@[simp] theorem entered_heap : (tables.entered fd dev openFlag minFd found).heap dev =
    some { found.opened openFlag with ringBuffer := true } :=
  update_self ..

@[simp] theorem left_heap : (tables.left fd dev found).heap dev =
    some (found.closed (tables.devFd fd).openFlag) :=
  update_self ..

@[simp] theorem withoutDev_heap : (tables.withoutDev dev num).heap dev = none := update_self ..

end

theorem pipeDevNumAlloc_free (free : tables.devNumBitmap num = false) (small : num < pipeDevNum) :
    ({ tables with devNumBitmap := update tables.devNumBitmap num true }).pipeDevNumFree num =
        tables := by
  rw [pipeDevNumFree, if_pos small]
  rw [Function.update_idem, ← free, Function.update_eq_self]

theorem pipeDevRegister_cases (tables : Tables) (making : Making) :
    (∃ errno, tables.pipeDevRegister making = (.error errno, tables)) ∨
      ∃ dev num, making.dev = some dev ∧ tables.makes making = true ∧ num < pipeDevNum ∧
        tables.devNumBitmap num = false ∧
        tables.pipeDevRegister making =
          (.ok (pipeDevPath ++ toString num), tables.withDev dev num) := by
  cases search : (List.range pipeDevNum).find? fun devNum => !tables.devNumBitmap devNum with
  | none =>
    exact .inl ⟨.ENODEV, by rw [pipeDevRegister, pipeDevNumAlloc, search, map_none]⟩
  | some num =>
    obtain ⟨clear, member, -⟩ := List.find?_range_eq_some.mp search
    have free : tables.devNumBitmap num = false := by simpa using clear
    have small := mem_range.mp member
    have undone := pipeDevNumAlloc_free free small
    have alloc : tables.pipeDevNumAlloc = some (num,
        { tables with devNumBitmap := update tables.devNumBitmap num true }) := by
      rw [pipeDevNumAlloc, search, map_some]
    rw [pipeDevRegister, alloc]
    dsimp only
    cases memory : making.dev with
    | none => exact .inl ⟨.ENOMEM, by rw [undone]⟩
    | some dev =>
      dsimp only
      split
      · exact .inl ⟨.EEXIST, by rw [undone]⟩
      split
      · exact .inl ⟨.ENOSPC, by rw [undone]⟩
      rename_i made
      simp only [not_or, Bool.not_eq_false] at made
      refine .inr ⟨dev, num, rfl, ?_, small, free, rfl⟩
      rw [makes, alloc, memory, made.1, made.2.1, made.2.2]
      rfl

namespace Sound

section

variable (sound : tables.Sound)
include sound

theorem heap_of_mem (member : dev ∈ tables.devList) : ∃ found, tables.heap dev = some found :=
  (sound.counted dev member).imp fun _ => And.left

theorem count_eq_zero (unknown : dev ∉ tables.devList)
    (only : ∀ entry, test entry = true → entry.dev = some dev) : tables.count test = 0 := by
  refine countP_eq_zero.mpr fun fd _ counts => ?_
  obtain ⟨taken, matches_⟩ := Bool.and_eq_true_iff.mp counts
  obtain ⟨owner, member, refers⟩ := sound.registered fd taken
  obtain rfl : owner = dev := some.inj (refers.symm.trans (only _ matches_))
  exact unknown member

theorem refersBy_eq_zero (unknown : dev ∉ tables.devList)
    (openFlag : Int) : tables.refersBy dev openFlag = 0 :=
  sound.count_eq_zero unknown fun _ same => beq_iff_eq.mp (Bool.and_eq_true_iff.mp same).1

theorem withDev (fresh : tables.heap dev = none) (small : num < pipeDevNum)
    (free : tables.devNumBitmap num = false) : (tables.withDev dev num).Sound := by
  have unknown : dev ∉ tables.devList := fun member => by
    obtain ⟨found, here⟩ := sound.heap_of_mem member
    rw [fresh] at here
    cases here
  have older : ∀ other ∈ tables.devList,
      (tables.withDev dev num).heap other = tables.heap other := fun other member =>
    update_of_ne (fun same : other = dev => unknown (same ▸ member)) _ _
  have here := withDev_heap tables dev num
  have olderNum : ∀ other ∈ tables.devList, ∀ found, tables.heap other = some found →
      found.num ≠ num := fun other member found stored same => by
    have set := (sound.numbered num).mpr ⟨other, member, found, stored, same⟩
    rw [free] at set
    exact Bool.false_ne_true set
  refine ⟨⟨sound.inside, fun fd taken => ?_, ?_, fun other => ?_, ?_⟩,
    nodup_cons.mpr ⟨unknown, sound.nodup⟩, fun other found stored => ?_,
    fun other found stored => ?_, sound.idle⟩
  · obtain ⟨owner, member, refers⟩ := sound.registered fd taken
    exact ⟨owner, mem_cons_of_mem _ member, refers⟩
  · refine forall_mem_cons.mpr ⟨⟨_, here, ?_, ?_, ?_⟩, fun other member => ?_⟩
    · exact (@count_eq_zero _ _ _ sound unknown fun entry same => beq_iff_eq.mp same).symm
    · exact (sound.refersBy_eq_zero unknown oRdonly).symm
    · exact (sound.refersBy_eq_zero unknown oWronly).symm
    · rw [older other member]
      exact sound.counted other member
  · by_cases same : other = num
    · subst same
      refine iff_of_true (update_self ..) ⟨dev, mem_cons_self, _, here, rfl⟩
    refine Iff.trans (Eq.to_iff (congrArg (· = true) (update_of_ne same _ _))) ?_
    refine (sound.numbered other).trans ⟨?_, ?_⟩
    · rintro ⟨owner, member, found, stored, isNum⟩
      exact ⟨owner, mem_cons_of_mem _ member, found, (older owner member).trans stored, isNum⟩
    · rintro ⟨owner, member, found, stored, isNum⟩
      obtain rfl | member := mem_cons.mp member
      · obtain rfl := some.inj (here.symm.trans stored)
        exact absurd isNum.symm same
      · exact ⟨owner, member, found, (older owner member).symm.trans stored, isNum⟩
  · refine forall_mem_cons.mpr ⟨forall_mem_cons.mpr ⟨fun _ _ _ _ _ => rfl, ?_⟩,
      fun other member => forall_mem_cons.mpr ⟨?_, fun third memberThird => ?_⟩⟩
    · intro other member found foundOther stored storedOther same
      obtain rfl := some.inj (here.symm.trans stored)
      exact absurd same.symm (olderNum other member _ ((older other member).symm.trans storedOther))
    · intro found foundOther stored storedOther same
      obtain rfl := some.inj (here.symm.trans storedOther)
      exact absurd same (olderNum other member _ ((older other member).symm.trans stored))
    · rw [older other member, older third memberThird]
      exact sound.distinct other member third memberThird
  · by_cases same : other = dev
    · exact same ▸ mem_cons_self
    · exact mem_cons_of_mem _
        (sound.listed other found ((update_of_ne same _ _).symm.trans stored))
  · by_cases same : other = dev
    · subst same
      obtain rfl := some.inj (here.symm.trans stored)
      exact small
    · exact sound.small other found ((update_of_ne same _ _).symm.trans stored)

section

variable (here : tables.heap dev = some found)
include here

theorem recount {changed : PipeDev}
    (heap : next.heap = update tables.heap dev (some changed))
    (sameNum : changed.num = found.num) (sameList : next.devList = tables.devList)
    (sameBits : next.devNumBitmap = tables.devNumBitmap)
    (inside : ∀ fd, next.devFdBitmap fd = true → fd < pipeFdNum)
    (registered : ∀ fd, next.devFdBitmap fd = true →
      ∃ dev ∈ tables.devList, (next.devFd fd).dev = some dev)
    (counted : ∀ dev ∈ tables.devList, ∃ found, next.heap dev = some found ∧
      found.ref = next.refers dev ∧ found.readerCnt = next.refersBy dev oRdonly ∧
        found.writerCnt = next.refersBy dev oWronly)
    (idle : ∀ fd, next.devFdBitmap fd = false → (next.devFd fd).dev = none) : next.Sound := by
  have nums : ∀ other, (next.heap other).map PipeDev.num = (tables.heap other).map PipeDev.num :=
    fun other => by
      rw [heap]
      by_cases same : other = dev
      · rw [same, update_self, here, map_some, map_some, sameNum]
      · rw [update_of_ne same]
  have older : ∀ other now, next.heap other = some now →
      ∃ before, tables.heap other = some before ∧ before.num = now.num := fun other now stored => by
    have equal := nums other
    rw [stored] at equal
    exact map_eq_some_iff.mp equal.symm
  refine ⟨⟨inside, ?_, ?_, fun num => ?_, ?_⟩, sameList ▸ sound.nodup,
    fun other now stored => ?_, fun other now stored => ?_, idle⟩
  · rw [sameList]
    exact registered
  · rw [sameList]
    exact counted
  · rw [sameBits, sameList, sound.numbered]
    refine exists_congr fun other => and_congr_right fun _ => ?_
    rw [← map_eq_some_iff, ← map_eq_some_iff, nums]
  · rw [sameList]
    intro other member third memberThird now nowThird stored storedThird same
    obtain ⟨before, storedBefore, equal⟩ := older other now stored
    obtain ⟨beforeThird, storedBeforeThird, equalThird⟩ := older third nowThird storedThird
    exact sound.distinct other member third memberThird before beforeThird storedBefore
      storedBeforeThird (by rw [equal, equalThird, same])
  · obtain ⟨before, storedBefore, -⟩ := older other now stored
    rw [sameList]
    exact sound.listed other before storedBefore
  · obtain ⟨before, storedBefore, equal⟩ := older other now stored
    exact equal ▸ sound.small other before storedBefore

theorem entered {openFlag : Int}
    (inside : fd < pipeFdNum) (free : tables.devFdBitmap fd = false)
    (minFd : Int) : (tables.entered fd dev openFlag minFd found).Sound := by
  have member := sound.listed dev found here
  have recounted : ∀ test, (tables.entered fd dev openFlag minFd found).count test =
      tables.count test + if test ⟨some dev, openFlag⟩ then 1 else 0 := fun test =>
    count_set inside free rfl rfl
  have entry : (tables.entered fd dev openFlag minFd found).devFd fd = ⟨some dev, openFlag⟩ :=
    update_self ..
  refine sound.recount here rfl rfl rfl rfl (fun other taken => ?_) (fun other taken => ?_)
    (fun other listed => ?_) (fun other idle => ?_)
  · by_cases same : other = fd
    · exact same ▸ inside
    · exact sound.inside other ((update_of_ne same _ _).symm.trans taken)
  · by_cases same : other = fd
    · exact ⟨dev, member, by rw [same, entry]⟩
    obtain ⟨owner, listed, refers⟩ :=
      sound.registered other ((update_of_ne same _ _).symm.trans taken)
    exact ⟨owner, listed, (congrArg PipeFdDev.dev (update_of_ne same _ _)).trans refers⟩
  · obtain ⟨before, stored, ref, readers, writers⟩ := sound.counted other listed
    by_cases same : other = dev
    · subst same
      obtain rfl := some.inj (here.symm.trans stored)
      refine ⟨_, update_self .., ?_, ?_, ?_⟩
      · rw [refers, recounted, if_pos (beq_self_eq_true (some other))]
        exact up_eq ref (tables.count_le _)
      · rw [refersBy, recounted, beq_self_eq_true]
        exact opened_readerCnt openFlag readers (tables.count_le _)
      · rw [refersBy, recounted, beq_self_eq_true]
        exact opened_writerCnt openFlag writers (tables.count_le _)
    · have apart : (some dev == some other) = false := by simpa using Ne.symm same
      refine ⟨before, (update_of_ne same _ _).trans stored, ?_, ?_, ?_⟩
      · rw [refers, recounted, apart, if_neg Bool.false_ne_true, Nat.add_zero]
        exact ref
      · rw [refersBy, recounted, apart, Bool.false_and, if_neg Bool.false_ne_true, Nat.add_zero]
        exact readers
      · rw [refersBy, recounted, apart, Bool.false_and, if_neg Bool.false_ne_true, Nat.add_zero]
        exact writers
  · by_cases same : other = fd
    · subst same
      have set : (tables.entered other dev openFlag minFd found).devFdBitmap other = true :=
        update_self ..
      rw [set] at idle
      cases idle
    · exact (congrArg PipeFdDev.dev (update_of_ne same _ _)).trans
        (sound.idle other ((update_of_ne same _ _).symm.trans idle))

theorem left
    (taken : tables.devFdBitmap fd = true) (refersTo : (tables.devFd fd).dev = some dev) :
    (tables.left fd dev found).Sound := by
  have recounted : ∀ test, tables.count test = (tables.left fd dev found).count test +
      if test (tables.devFd fd) then 1 else 0 := fun test =>
    count_clear (sound.inside fd taken) taken rfl rfl
  have bit : (tables.left fd dev found).devFdBitmap fd = false := update_self ..
  have entry : (tables.left fd dev found).devFd fd = ⟨none, 0⟩ := update_self ..
  refine sound.recount here rfl rfl rfl rfl (fun other taken => ?_) (fun other taken => ?_)
    (fun other listed => ?_) (fun other idle => ?_)
  · by_cases same : other = fd
    · rw [same, bit] at taken
      cases taken
    · exact sound.inside other ((update_of_ne same _ _).symm.trans taken)
  · by_cases same : other = fd
    · rw [same, bit] at taken
      cases taken
    obtain ⟨owner, listed, refers⟩ :=
      sound.registered other ((update_of_ne same _ _).symm.trans taken)
    exact ⟨owner, listed, (congrArg PipeFdDev.dev (update_of_ne same _ _)).trans refers⟩
  · obtain ⟨before, stored, ref, readers, writers⟩ := sound.counted other listed
    rw [refers, recounted, refersTo] at ref
    rw [refersBy, recounted, refersTo] at readers writers
    by_cases same : other = dev
    · subst same
      obtain rfl := some.inj (here.symm.trans stored)
      rw [beq_self_eq_true] at ref
      rw [beq_self_eq_true] at readers writers
      exact ⟨_, update_self .., down_eq ref (count_le _ _),
        closed_readerCnt _ readers (count_le _ _), closed_writerCnt _ writers (count_le _ _)⟩
    · have apart : (some dev == some other) = false := by simpa using Ne.symm same
      rw [apart, if_neg Bool.false_ne_true, Nat.add_zero] at ref
      rw [apart, Bool.false_and, if_neg Bool.false_ne_true, Nat.add_zero] at readers writers
      exact ⟨before, (update_of_ne same _ _).trans stored, ref, readers, writers⟩
  · by_cases same : other = fd
    · rw [same, entry]
    · exact (congrArg PipeFdDev.dev (update_of_ne same _ _)).trans
        (sound.idle other ((update_of_ne same _ _).symm.trans idle))

theorem withoutDev
    (unused : tables.refers dev = 0) : (tables.withoutDev dev found.num).Sound := by
  have member := sound.listed dev found here
  have kept : ∀ other, other ∈ tables.devList.erase dev ↔ other ≠ dev ∧ other ∈ tables.devList :=
    fun other => sound.nodup.mem_erase_iff
  have older : ∀ other, other ≠ dev →
      (tables.withoutDev dev found.num).heap other = tables.heap other := fun other different =>
    update_of_ne different _ _
  have gone := withoutDev_heap tables dev found.num
  have stays : ∀ other now, (tables.withoutDev dev found.num).heap other = some now →
      other ≠ dev := fun other now stored same => by
    rw [same, gone] at stored
    cases stored
  refine ⟨⟨sound.inside, fun fd taken => ?_, fun other listed => ?_, fun num => ?_, ?_⟩,
    sound.nodup.erase dev, fun other now stored => ?_, fun other now stored => ?_, sound.idle⟩
  · obtain ⟨owner, listed, refersTo⟩ := sound.registered fd taken
    refine ⟨owner, (kept owner).mpr ⟨fun same => ?_, listed⟩, refersTo⟩
    subst same
    have counts := countP_eq_zero.mp unused fd
      (mem_range.mpr (Nat.lt_trans (sound.inside fd taken) (by decide)))
    exact counts (Bool.and_eq_true_iff.mpr ⟨taken, beq_iff_eq.mpr refersTo⟩)
  · obtain ⟨different, listed⟩ := (kept other).mp listed
    rw [older other different]
    exact sound.counted other listed
  · by_cases same : num = found.num
    · subst same
      refine iff_of_false (fun set => ?_) ?_
      · exact Bool.false_ne_true ((update_self _ _ _).symm.trans set)
      · rintro ⟨owner, listed, now, stored, isNum⟩
        obtain ⟨different, listed⟩ := (kept owner).mp listed
        exact different (sound.distinct owner listed dev member now found
          ((older owner different).symm.trans stored) here isNum)
    · refine Iff.trans (Eq.to_iff (congrArg (· = true) (update_of_ne same _ _))) ?_
      refine (sound.numbered num).trans ⟨?_, ?_⟩
      · rintro ⟨owner, listed, now, stored, isNum⟩
        have different : owner ≠ dev := fun equal => by
          subst equal
          obtain rfl := some.inj (here.symm.trans stored)
          exact same isNum.symm
        exact ⟨owner, (kept owner).mpr ⟨different, listed⟩, now,
          (older owner different).trans stored, isNum⟩
      · rintro ⟨owner, listed, now, stored, isNum⟩
        obtain ⟨different, listed⟩ := (kept owner).mp listed
        exact ⟨owner, listed, now, (older owner different).symm.trans stored, isNum⟩
  · intro other listed third listedThird
    obtain ⟨different, listed⟩ := (kept other).mp listed
    obtain ⟨differentThird, listedThird⟩ := (kept third).mp listedThird
    rw [older other different, older third differentThird]
    exact sound.distinct other listed third listedThird
  · have different := stays other now stored
    exact (kept other).mpr ⟨different,
      sound.listed other now ((older other different).symm.trans stored)⟩
  · exact sound.small other now ((older other (stays other now stored)).symm.trans stored)

end

end

end Sound

/-! ### The calls -/

variable {path : String} {openFlag minFd : Int} {memory : Bool}

theorem heap_of_pipeDevFind (search : tables.pipeDevFind path = some dev) :
    ∃ found, tables.heap dev = some found := by
  have named := List.find?_some search
  obtain ⟨found, here, -⟩ := (any_eq_true _ _).mp named
  exact ⟨found, here⟩

theorem pipeOpen_eq (search : tables.pipeDevFind path = some dev)
    (here : tables.heap dev = some found) (mode : openFlag = oRdonly ∨ openFlag = oWronly)
    (room : tables.inUse < pipeFdNum) (ring : found.ringBuffer = true ∨ memory = true) :
    ∃ fd, fd < pipeFdNum ∧ tables.devFdBitmap fd = false ∧
      tables.pipeOpen (some path) openFlag minFd memory =
        (.ok (fd + minFd), tables.entered fd dev openFlag minFd found) := by
  obtain ⟨fd, alloc, inside, free⟩ := pipeDevFdAlloc_eq room
  refine ⟨fd, inside, free, ?_⟩
  have known : ¬(openFlag ≠ oRdonly ∧ openFlag ≠ oWronly) := fun unknown =>
    mode.elim unknown.1 unknown.2
  rw [pipeOpen, if_neg known, search]
  rw [alloc]
  dsimp only
  rw [here, map_some, any_some]
  cases ringBuffer : found.ringBuffer with
  | true =>
    have kept : { found.opened openFlag with ringBuffer := true } = found.opened openFlag := by
      rw [PipeDev.opened, ringBuffer]
    rw [entered, kept]
    exact if_neg (by rw [PipeDev.opened, ringBuffer]; decide)
  | false =>
    have allocated : memory = true :=
      ring.resolve_left (by rw [ringBuffer]; exact Bool.false_ne_true)
    rw [Function.update_idem, allocated]
    exact if_pos (by rw [PipeDev.opened, ringBuffer]; rfl)

theorem Buffered.entered (buffered : ∀ other found, other ≠ dev →
      tables.heap other = some found → found.ringBuffer = true) :
    (tables.entered fd dev openFlag minFd found).Buffered := by
  intro other now stored
  by_cases same : other = dev
  · rw [same, entered_heap] at stored
    obtain rfl := some.inj stored
    rfl
  · exact buffered other now same ((update_of_ne same _ _).symm.trans stored)

theorem Buffered.left (buffered : tables.Buffered) (here : tables.heap dev = some found) :
    (tables.left fd dev found).Buffered := by
  intro other now stored
  by_cases same : other = dev
  · rw [same, left_heap] at stored
    obtain rfl := some.inj stored
    exact buffered dev found here
  · exact buffered other now ((update_of_ne same _ _).symm.trans stored)

theorem Buffered.withoutDev (buffered : tables.Buffered) :
    (tables.withoutDev dev num).Buffered := by
  intro other now stored
  by_cases same : other = dev
  · rw [same, withoutDev_heap] at stored
    cases stored
  · exact buffered other now ((update_of_ne same _ _).symm.trans stored)

theorem pipeOpen_cases (sound : tables.Sound) (buffered : tables.Buffered) {name : Option String}
    (careful : tables.careful (.pipeOpen name openFlag minFd memory) = true) :
    (∃ errno, tables.pipeOpen name openFlag minFd memory = (.error errno, tables)) ∨
      ∃ fd next, tables.pipeOpen name openFlag minFd memory = (.ok fd, next) ∧
        next.Sound ∧ next.Buffered := by
  cases name with
  | none => exact .inl ⟨.EINVAL, rfl⟩
  | some path =>
    by_cases unknown : openFlag ≠ oRdonly ∧ openFlag ≠ oWronly
    · exact .inl ⟨.EINVAL, by rw [pipeOpen, if_pos unknown]⟩
    cases search : tables.pipeDevFind path with
    | none =>
      refine .inl ⟨.ENODEV, ?_⟩
      rw [pipeOpen, if_neg unknown, search]
    | some dev =>
      obtain ⟨found, here⟩ := heap_of_pipeDevFind search
      have room : tables.inUse < pipeFdNum := by
        simpa [Tables.careful, search, unknown] using careful
      have mode : openFlag = oRdonly ∨ openFlag = oWronly := by
        by_contra neither
        exact unknown (not_or.mp neither)
      obtain ⟨fd, inside, free, result⟩ :=
        pipeOpen_eq search here mode room (.inl (buffered dev found here))
      exact .inr ⟨_, _, result, sound.entered here inside free minFd,
        .entered fun other now _ stored => buffered other now stored⟩

theorem pipeDevUnregister_eq (sound : tables.Sound) (here : tables.heap dev = some found) :
    tables.pipeDevUnregister (some dev) = some (tables.withoutDev dev found.num) := by
  rw [pipeDevUnregister, if_pos (sound.listed dev found here), here, map_some,
    pipeDevNumFree, if_pos (sound.small dev found here)]
  rfl

theorem pipeClose_cases (sound : tables.Sound) (buffered : tables.Buffered) (fd : Int) :
    (∃ errno, tables.pipeClose fd = some (.error errno, tables)) ∨
      ∃ next, tables.pipeClose fd = some (.ok (), next) ∧ next.Sound ∧ next.Buffered := by
  cases search : tables.pipeFd2Dev fd with
  | none => exact .inl ⟨.ENODEV, by rw [pipeClose, search]⟩
  | some entry =>
    obtain ⟨place, dev⟩ := entry
    obtain ⟨index, -, refers⟩ := bind_eq_some_iff.mp search
    obtain ⟨owner, refersTo, pair⟩ := map_eq_some_iff.mp refers
    obtain ⟨rfl, rfl⟩ := Prod.mk.inj pair
    have taken : tables.devFdBitmap index = true := by
      by_contra free
      rw [sound.idle index (Bool.eq_false_iff.mpr free)] at refersTo
      cases refersTo
    obtain ⟨other, member, same⟩ := sound.registered index taken
    obtain rfl : other = owner := some.inj (same.symm.trans refersTo)
    obtain ⟨found, here⟩ := sound.heap_of_mem member
    have kept := sound.left here taken refersTo
    have keptBuffered : (tables.left index other found).Buffered := buffered.left here
    have stored := left_heap tables index other found
    refine .inr ?_
    rw [pipeClose, search]
    dsimp only
    rw [here, bind_some]
    by_cases last : (found.closed (tables.devFd index).openFlag).ref = 0
    · obtain ⟨now, storedNow, ref, -⟩ := kept.counted other member
      obtain rfl := some.inj (stored.symm.trans storedNow)
      refine ⟨_, ?_, kept.withoutDev stored (ref.symm.trans last), keptBuffered.withoutDev⟩
      rw [if_pos last]
      exact congrArg (Option.map _) (pipeDevUnregister_eq kept stored)
    · refine ⟨_, ?_, kept, keptBuffered⟩
      rw [if_neg last]
      rfl

theorem pipeDevFind_withDev :
    (tables.withDev dev num).pipeDevFind (pipeDevPath ++ toString num) = some dev := by
  refine List.find?_cons_of_pos ?_
  rw [withDev_heap, any_some, beq_self_eq_true]

theorem pipeDevFind_entered (fd : Nat) (openFlag minFd : Int) :
    ((tables.withDev dev num).entered fd dev openFlag minFd
        ⟨pipeDevPath ++ toString num, num, false, 0, 0, 0⟩).pipeDevFind
      (pipeDevPath ++ toString num) = some dev := by
  refine List.find?_cons_of_pos ?_
  rw [entered_heap, any_some]
  exact beq_self_eq_true (pipeDevPath ++ toString num)

theorem pipeDevUnregister_withDev (fresh : tables.heap dev = none) (small : num < pipeDevNum)
    (free : tables.devNumBitmap num = false) :
    (tables.withDev dev num).pipeDevUnregister (some dev) = some tables := by
  have listed : dev ∈ (tables.withDev dev num).devList := mem_cons_self
  rw [pipeDevUnregister, if_pos listed, withDev_heap]
  simp only [withDev, map_some, pipeDevNumFree, if_pos small, Function.update_idem,
    erase_cons_head]
  rw [← fresh, Function.update_eq_self, ← free, Function.update_eq_self]

theorem pipe_cases (sound : tables.Sound) (buffered : tables.Buffered) {making : Making}
    {first second : Opening} (fresh : offered tables (.pipe making first second) = true)
    (careful : tables.careful (.pipe making first second) = true) :
    (∃ errno, tables.pipe minFd making first second = some (.error errno, tables)) ∨
      ∃ fds next, tables.pipe minFd making first second = some (.ok fds, next) ∧
        next.Sound ∧ next.Buffered := by
  obtain ⟨errno, registers⟩ | ⟨dev, num, memory, makes, small, free, registers⟩ :=
    pipeDevRegister_cases tables making
  · exact .inl ⟨errno, by rw [pipe, registers]⟩
  have unused : tables.heap dev = none := by
    rw [offered, memory, all_some, isNone_iff_eq_none] at fresh
    exact fresh
  rw [pipe, registers]
  dsimp only
  rw [pipeDevFind_withDev]
  cases stopped : first.stopped with
  | some errno =>
    refine .inl ⟨errno, ?_⟩
    rw [openDev, stopped]
    dsimp only
    rw [pipeDevUnregister_withDev unused small free, map_some]
  | none =>
    rw [Tables.careful, makes, stopped] at careful
    obtain ⟨⟨ring, reaches⟩, room⟩ :
        (first.memory = true ∧ second.stopped.isNone = true) ∧ tables.inUse + 1 < pipeFdNum := by
      simpa using careful
    have made := sound.withDev unused small free
    obtain ⟨fd, inside, unset, opens⟩ := @pipeOpen_eq (tables.withDev dev num) dev _ _ oRdonly
      minFd first.memory pipeDevFind_withDev (update_self ..) (.inl rfl)
      (Nat.lt_of_succ_lt room) (.inr ring)
    rw [openDev, stopped]
    rw [opens]
    dsimp only
    obtain ⟨fd', inside', unset', opens'⟩ := @pipeOpen_eq
      ((tables.withDev dev num).entered fd dev oRdonly minFd _) dev _ _ oWronly minFd second.memory
      (pipeDevFind_entered _ _ _) (entered_heap ..) (.inr rfl)
      (by rw [inUse_set inside unset rfl]; exact room) (.inl rfl)
    rw [openDev, isNone_iff_eq_none.mp reaches]
    rw [opens']
    refine .inr ⟨_, _, rfl, ?_, .entered fun other now different stored => ?_⟩
    · exact (made.entered (withDev_heap tables dev num) inside unset minFd).entered
        (entered_heap ..) inside' unset' minFd
    · exact buffered other now ((update_of_ne different _ _).symm.trans
        ((update_of_ne different _ _).symm.trans stored))

/-! ### Runs of calls -/

theorem sound_initial : initial.Sound where
  inside := fun _ taken => absurd taken Bool.false_ne_true
  registered := fun _ taken => absurd taken Bool.false_ne_true
  counted := fun _ member => absurd member not_mem_nil
  numbered := fun _ => iff_of_false Bool.false_ne_true fun ⟨_, member, _⟩ =>
    not_mem_nil member
  distinct := fun _ member => absurd member not_mem_nil
  nodup := nodup_nil
  listed := fun _ _ stored => absurd stored (some_ne_none _).symm
  small := fun _ _ stored => absurd stored (some_ne_none _).symm
  idle := fun _ _ => rfl

theorem call_cases (pipeDevFd : Int) {call : Call} (sound : tables.Sound)
    (buffered : tables.Buffered) (fresh : offered tables call = true)
    (careful : tables.careful call = true) :
    (∃ errno, tables.call pipeDevFd call = some (.error errno, tables)) ∨
      ∃ fds next, tables.call pipeDevFd call = some (.ok fds, next) ∧ next.Sound ∧
        next.Buffered := by
  cases call with
  | pipe making first second => exact pipe_cases sound buffered fresh careful
  | pipeOpen name openFlag minFd memory =>
    rw [Tables.call]
    obtain ⟨errno, fails⟩ | ⟨fd, next, opens, kept⟩ := pipeOpen_cases sound buffered careful
    · exact .inl ⟨errno, by rw [fails]; rfl⟩
    · exact .inr ⟨[fd], next, by rw [opens]; rfl, kept⟩
  | pipeClose fd =>
    rw [Tables.call]
    obtain ⟨errno, fails⟩ | ⟨next, closes, kept⟩ := pipeClose_cases sound buffered fd
    · exact .inl ⟨errno, by rw [fails]; rfl⟩
    · exact .inr ⟨[], next, by rw [closes]; rfl, kept⟩

end Tables

/-- What a run of calls needs: memory that is not in use, and calls that are careful. -/
def meets (tables : Tables) (call : Call) : Bool :=
  offered tables call && tables.careful call

theorem sound_of_reached {pipeDevFd : Int} {tables : Tables}
    (reached : Reachable (step pipeDevFd) (fun tables call => meets tables call = true)
      (· = initial) tables) : tables.Sound ∧ tables.Buffered := by
  induction reached with
  | start first =>
    subst first
    exact ⟨Tables.sound_initial, fun _ _ stored => absurd stored (some_ne_none _).symm⟩
  | step _ careful taken holds =>
    obtain ⟨fresh, careful⟩ := Bool.and_eq_true_iff.mp careful
    obtain ⟨⟨result, next⟩, called, rfl⟩ := map_eq_some_iff.mp taken
    obtain ⟨errno, fails⟩ | ⟨fds, after, works, keeps⟩ :=
      Tables.call_cases pipeDevFd holds.1 holds.2 fresh careful
    · obtain ⟨-, rfl⟩ := Prod.mk.inj (some.inj (fails.symm.trans called))
      exact holds
    · obtain ⟨-, rfl⟩ := Prod.mk.inj (some.inj (works.symm.trans called))
      exact keeps

/-- In every run of careful calls the accounts are in order, and the next careful call fails and
changes nothing or leaves them in order. -/
theorem accounted (pipeDevFd : Int) (tables : Tables)
    (reached : Reachable (step pipeDevFd) (fun tables call => meets tables call = true)
      (· = initial) tables) : tables.Accounted ∧ ∀ call, meets tables call = true →
      ∃ result next, tables.call pipeDevFd call = some (result, next) ∧ next.Accounted ∧
        ∀ errno, result = .error errno → next = tables := by
  obtain ⟨sound, buffered⟩ := sound_of_reached reached
  refine ⟨sound.toAccounted, fun call careful => ?_⟩
  obtain ⟨fresh, careful⟩ := Bool.and_eq_true_iff.mp careful
  obtain ⟨errno, fails⟩ | ⟨fds, next, works, keeps, -⟩ :=
    Tables.call_cases pipeDevFd sound buffered fresh careful
  · exact ⟨_, tables, fails, sound.toAccounted, fun _ _ => rfl⟩
  · refine ⟨_, next, works, keeps.toAccounted, fun errno failed => ?_⟩
    cases failed

/-- A pipe is made at an address, where there is memory for its ring or not. -/
def sample (memory : Bool) : Call :=
  .pipe ⟨some 4096, true, true, true⟩ ⟨none, memory⟩ ⟨none, memory⟩

/-- A pipe is made, opened once more and closed at one end. -/
theorem accounted_sample : ∃ tables, execute (step 256) meets initial [sample true,
        .pipeOpen (some "/dev/pipe0") oWronly 256 true, .pipeClose 256] = some tables ∧
      tables.Accounted := by
  refine ⟨_, rfl, (accounted 256 _ ?_).1⟩
  exact Reachable.of_execute (fun _ _ holds => holds) [sample true,
    .pipeOpen (some "/dev/pipe0") oWronly 256 true, .pipeClose 256] (.start rfl) rfl

/-- A pipe is made, and its device is opened until no entry of the table is free, and once more. -/
def opensAll : List Call :=
  sample true :: List.replicate 63 (.pipeOpen (some "/dev/pipe0") oWronly 256 true)

/-- The first `pipe` fails for want of a ring and leaves the address of the freed device in the
table; and after a `pipe` and 63 more opens of its device, a descriptor behind the table is
allocated. -/
theorem stale_entry : (∃ next, initial.call 256 (sample false) = some (.error .ENOMEM, next) ∧
      next.heap 4096 = none ∧ (next.devFd 0).dev = some 4096 ∧ next ≠ initial) ∧
    ∃ tables, Reachable (step 256) (fun tables call => offered tables call = true)
        (· = initial) tables ∧
      tables.devFdBitmap pipeFdNum = true ∧ ¬tables.Accounted := by
  refine ⟨⟨_, rfl, rfl, rfl, fun same => ?_⟩, ?_⟩
  · have entry : some 4096 = none := congrArg (fun tables => (tables.devFd 0).dev) same
    cases entry
  · have full : (execute (step 256) offered initial opensAll).any
        (fun tables => tables.devFdBitmap pipeFdNum) = true := by
      decide +kernel
    obtain ⟨tables, result, behind⟩ := (any_eq_true _ _).mp full
    exact ⟨tables, Reachable.of_execute (fun _ _ holds => holds) opensAll (.start rfl) result,
      behind, fun accounts => Nat.lt_irrefl _ (accounts.inside _ behind)⟩

end TowerSafe.PipeFds
