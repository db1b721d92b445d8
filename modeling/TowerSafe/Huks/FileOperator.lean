/-
This file embeds the two builds of `hks_file_operator_lite.c`: with the calls of POSIX, and with
those of the lite storage. A file that was written from its beginning is found again as it was
written exactly when all bytes were accepted in the lite build, and in the other build exactly when
what is not overwritten of the old file happens to be the rest.
-/

import TowerSafe.Library.Bytes
import Mathlib.Logic.Function.Basic

namespace TowerSafe.FileOperator

open Library List

/-! ### Files -/

/-- With `_STORAGE_LITE_`, or without. -/
inductive Build where
  | standard
  | lite
  deriving DecidableEq

/-- Names are strings without their terminators. -/
abbrev Name := Bytes

/-- The contents of the files that exist. -/
abbrev Files := Name → Option Bytes

/-- The return values other than `HKS_SUCCESS`, and an access before the beginning of a string,
which is not one. -/
inductive Failure where
  | invalidArgument
  | mallocFail
  | internalError
  | openFileFail
  | writeFileFail
  | outside
  deriving DecidableEq

def maxFileNameLen : Nat := 512

/-- `strncat_s`, and `strncpy_s` to an empty string. -/
def strncatS (dest : Name) (destMax : Nat) (src : Name) : Except Failure Name :=
  if dest.length + src.length < destMax then .ok (dest ++ src) else .error .internalError

def getFileName (path : Option Name) (fileName : Name) (fullFileNameLen : Nat) :
    Except Failure Name :=
  match path with
  | none => strncatS [] fullFileNameLen fileName
  | some path => do
    let full ← strncatS [] fullFileNameLen path
    match path.getLast? with
    | none => .error .outside
    | some last => do
      let full ← if last ≠ 0x2F then strncatS full fullFileNameLen [0x2F] else .ok full
      strncatS full fullFileNameLen fileName

/-- `GetFullFileName`, where there may be no memory. -/
def getFullFileName (path : Option Name) (fileName : Name) (malloc : Bool) :
    Except Failure Name :=
  if malloc then getFileName path fileName maxFileNameLen else .error .mallocFail

/-- An `int32_t` of a number of bytes is negative. -/
def negative (count : Nat) : Bool := decide ((BitVec.ofNat 32 count).toInt < 0)

/-! ### Calls -/

/-- What happens in a write: whether there is memory for the name, whether the file can be opened,
and how many bytes are accepted, if the call does not fail. -/
structure WriteEvents where
  malloc : Bool
  opened : Bool
  accepted : Option Nat
  deriving DecidableEq

def WriteEvents.count (events : WriteEvents) (buf : Bytes) : Nat :=
  min (events.accepted.getD 0) buf.length

/-- `FileWrite`: the file afterwards. The standard build ignores the offset and opens without
`O_TRUNC`. -/
def fileWrite (build : Build) (file : Option Bytes) (offset : Nat) (buf : Bytes)
    (events : WriteEvents) : Option Bytes × Option Failure :=
  match build with
  | .standard =>
    if events.opened = false then (file, some .openFileFail)
    else
      let old := file.getD []
      match events.accepted with
      | none => (some old, some .writeFileFail)
      | some _ =>
        let count := events.count buf
        let after := buf.take count ++ old.drop count
        if negative count then (some after, some .writeFileFail) else (some after, none)
  | .lite =>
    if offset ≠ 0 then (file, some .invalidArgument)
    else if events.opened = false then (file, some .openFileFail)
    else
      match events.accepted with
      | none => (some [], some .writeFileFail)
      | some _ =>
        let count := events.count buf
        if negative count then (some (buf.take count), some .writeFileFail)
        else (some (buf.take count), none)

/-- `FileSize`, when the call for it does not fail: the size as a `uint32_t`. -/
def fileSize (file : Option Bytes) : Nat :=
  match file with
  | none => 0
  | some bytes => bytes.length % 2 ^ 32

/-- `FileRead`, when the calls do not fail and the read gives all there is: the result, and what is
at the beginning of the buffer then. -/
def fileRead (build : Build) (file : Option Bytes) (offset len : Nat) : Nat × Bytes :=
  match build with
  | .standard =>
    match file with
    | none => (0, [])
    | some bytes =>
      let size := min len bytes.length
      if negative size then (0, bytes.take len) else (size, bytes.take len)
  | .lite =>
    if offset ≠ 0 then (0, [])
    else
      match file with
      | none => (0, [])
      | some bytes =>
        if len > bytes.length % 2 ^ 32 then (0, [])
        else if negative (min len bytes.length) then (0, bytes.take len)
        else (len, bytes.take len)

/-- A buffer whose length is a `uint32_t`. -/
structure Buffer where
  bytes : Bytes
  fits : bytes.length < 2 ^ 32

variable (build : Build) (files : Files) (path : Option Name) (fileName : Option Name)

def hksFileWrite (offset : Nat) (buf : Option Buffer) (events : WriteEvents) :
    Files × Option Failure :=
  match fileName, buf with
  | some fileName, some buf =>
    if buf.bytes.length = 0 then (files, some .invalidArgument)
    else
      match getFullFileName path fileName events.malloc with
      | .error failure => (files, some failure)
      | .ok full =>
        let (file, failure) := fileWrite build (files full) offset buf.bytes events
        (Function.update files full file, failure)
  | _, _ => (files, some .invalidArgument)

def hksFileSize (malloc : Bool) : Nat :=
  match fileName with
  | none => 0
  | some fileName =>
    match getFullFileName path fileName malloc with
    | .error _ => 0
    | .ok full => fileSize (files full)

/-- `HksFileRead` into a buffer of so many bytes. -/
def hksFileRead (malloc : Bool) (offset len : Nat) : Nat × Bytes :=
  match fileName with
  | none => (0, [])
  | some fileName =>
    if len = 0 then (0, [])
    else
      match getFullFileName path fileName malloc with
      | .error _ => (0, [])
      | .ok full => fileRead build (files full) offset len

/-! ### Replacement -/

/-- The file has the size of a buffer, and reading so many bytes gives the buffer. -/
def Replaced (buf : Buffer) : Prop :=
  hksFileSize files path fileName true = buf.bytes.length ∧
    hksFileRead build files path fileName true 0 buf.bytes.length =
      (buf.bytes.length, buf.bytes)

/-- What it takes when some bytes were accepted: all of them, in the lite build; in the other build,
that what is left of the old file begins with the rest, and that the longer of them has the length
of the buffer as a `uint32_t`, and it is no negative `int32_t`. -/
def Replaceable (old : Bytes) (buf : Buffer) (count : Nat) : Prop :=
  match build with
  | .standard => buf.bytes.drop count <+: old.drop count ∧
      max count old.length % 2 ^ 32 = buf.bytes.length ∧ buf.bytes.length < 2 ^ 31
  | .lite => count = buf.bytes.length

/-- The old content under the full name. -/
def oldContent : Bytes :=
  match fileName with
  | none => []
  | some fileName =>
    match getFullFileName path fileName true with
    | .error _ => []
    | .ok full => (files full).getD []

theorem negative_eq_false {count : Nat} (small : count < 2 ^ 32) :
    negative count = false ↔ count < 2 ^ 31 := by
  rw [negative, decide_eq_false_iff_not, BitVec.toInt_eq_toNat_cond, BitVec.toNat_ofNat,
    Nat.mod_eq_of_lt small]
  split_ifs <;> omega

/-- What a buffer begins with, and the rest, make it. -/
theorem take_append_eq_iff {buf old : Bytes} {count : Nat} (le : count ≤ buf.length) :
    (buf.take count ++ old.drop count).take buf.length = buf ↔
      buf.drop count <+: old.drop count := by
  have length : (buf.take count).length = count := length_take_of_le le
  rw [take_append, length, take_take, Nat.min_eq_right le, prefix_iff_eq_take,
    length_drop]
  constructor
  · intro same
    have both : buf.take count ++ (old.drop count).take (buf.length - count) =
        buf.take count ++ buf.drop count := by
      rw [take_append_drop]
      exact same
    exact (append_cancel_left both).symm
  · intro same
    rw [← same, take_append_drop]

/-- What is read and measured after a write in the standard build. -/
theorem standard_iff {old buf : Bytes} {count : Nat} (le : count ≤ buf.length)
    (fits : buf.length < 2 ^ 32) (some_ : 0 < buf.length) :
    (fileSize (some (buf.take count ++ old.drop count)) = buf.length ∧
      fileRead .standard (some (buf.take count ++ old.drop count)) 0 buf.length =
        (buf.length, buf)) ↔
      buf.drop count <+: old.drop count ∧ max count old.length % 2 ^ 32 = buf.length ∧
        buf.length < 2 ^ 31 := by
  have length : (buf.take count ++ old.drop count).length = max count old.length := by
    rw [length_append, length_take_of_le le, length_drop]
    omega
  rw [fileSize, fileRead, length, ← take_append_eq_iff le]
  by_cases low : min buf.length (max count old.length) < 2 ^ 31
  · rw [if_neg (by rw [(negative_eq_false (by omega)).mpr low]; exact Bool.false_ne_true)]
    constructor
    · rintro ⟨size, read⟩
      obtain ⟨all, same⟩ := Prod.mk.inj read
      exact ⟨same, size, by omega⟩
    · rintro ⟨same, size, small⟩
      refine ⟨size, Prod.ext ?_ same⟩
      omega
  · have high : negative (min buf.length (max count old.length)) = true :=
      Bool.eq_true_of_not_eq_false (mt (negative_eq_false (by omega)).mp low)
    rw [if_pos high]
    refine iff_of_false (fun ⟨_, read⟩ => ?_) fun ⟨_, size, small⟩ => by omega
    have zero := (Prod.mk.inj read).1
    omega

/-- What is read and measured after a write in the lite build. -/
theorem lite_iff {buf : Bytes} {count : Nat} (le : count ≤ buf.length) (small : count < 2 ^ 31)
    (some_ : 0 < buf.length) : (fileSize (some (buf.take count)) = buf.length ∧
      fileRead .lite (some (buf.take count)) 0 buf.length = (buf.length, buf)) ↔
      count = buf.length := by
  have length : (buf.take count).length = count := length_take_of_le le
  have size : fileSize (some (buf.take count)) = count := by
    rw [fileSize, length]
    exact Nat.mod_eq_of_lt (by omega)
  rw [size]
  refine ⟨fun both => both.1, ?_⟩
  rintro rfl
  refine ⟨rfl, ?_⟩
  have low : negative (min buf.length buf.length) = false :=
    (negative_eq_false (by omega)).mpr (by omega)
  rw [take_length, fileRead, if_neg (by omega), Nat.mod_eq_of_lt (by omega),
    if_neg (by omega), low, take_length]
  rfl

theorem fileWrite_done {build : Build} {file : Option Bytes} {buf : Bytes} {events : WriteEvents}
    (done : (fileWrite build file 0 buf events).2 = none) :
    negative (events.count buf) = false ∧
      (fileWrite build file 0 buf events).1 =
        match build with
        | .standard => some (buf.take (events.count buf) ++
            (file.getD []).drop (events.count buf))
        | .lite => some (buf.take (events.count buf)) := by
  unfold fileWrite at done ⊢
  cases build with
  | standard =>
    by_cases closed : events.opened = false
    · simp only [closed, if_true] at done
      cases done
    simp only [closed] at done ⊢
    cases accepted : events.accepted with
    | none =>
      rw [accepted] at done
      cases done
    | some number =>
      rw [accepted] at done
      cases sign : negative (events.count buf) with
      | true =>
        simp only [sign, if_true] at done
        cases done
      | false => exact ⟨rfl, rfl⟩
  | lite =>
    by_cases closed : events.opened = false
    · simp only [closed, if_true] at done
      cases done
    simp only [closed] at done ⊢
    cases accepted : events.accepted with
    | none =>
      rw [accepted] at done
      cases done
    | some number =>
      rw [accepted] at done
      cases sign : negative (events.count buf) with
      | true =>
        simp only [sign, if_true] at done
        cases done
      | false => exact ⟨rfl, rfl⟩

/-- A write from the beginning that reports success replaces the file exactly when all bytes were
accepted, in the lite build, and in the other build exactly when the old file has the rest, nothing
behind it, and the buffer is not too long to be read. -/
theorem hksFileWrite_replaces_iff (buf : Buffer) (events : WriteEvents)
    (done : (hksFileWrite build files path fileName 0 (some buf) events).2 = none) :
    Replaced build (hksFileWrite build files path fileName 0 (some buf) events).1 path fileName
        buf ↔
      Replaceable build (oldContent files path fileName) buf (events.count buf.bytes) := by
  unfold Replaced hksFileSize hksFileRead
  unfold hksFileWrite at done ⊢
  cases fileName with
  | none => cases done
  | some fileName =>
    dsimp only at done ⊢
    by_cases empty : buf.bytes.length = 0
    · rw [if_pos empty] at done
      cases done
    rw [if_neg empty] at done ⊢
    rw [if_neg empty]
    cases named : getFullFileName path fileName events.malloc with
    | error failure =>
      rw [named] at done
      cases done
    | ok full =>
      rw [named] at done
      have again : getFullFileName path fileName true = .ok full := by
        unfold getFullFileName at named
        split_ifs at named
        exact named
      have old : oldContent files path (some fileName) = (files full).getD [] := by
        rw [oldContent, again]
      rw [again, old]
      dsimp only
      rw [Function.update_self]
      obtain ⟨sign, after⟩ := fileWrite_done done
      have le : events.count buf.bytes ≤ buf.bytes.length := Nat.min_le_right _ _
      have fits := buf.fits
      have small := (negative_eq_false (by omega)).mp sign
      rw [after]
      cases build with
      | standard => exact standard_iff le fits (Nat.pos_of_ne_zero empty)
      | lite => exact lite_iff le small (Nat.pos_of_ne_zero empty)

def sampleFiles : Files := fun name => if name = [0x61] then some [1, 2, 3] else none

def sampleBuffer : Buffer := ⟨[9], by decide⟩

def sampleEvents (accepted : Nat) : WriteEvents := ⟨true, true, some accepted⟩

theorem hksFileWrite_replaces_iff_sample :
    Replaced .lite (hksFileWrite .lite sampleFiles none (some [0x61]) 0 (some sampleBuffer)
      (sampleEvents 1)).1 none (some [0x61]) sampleBuffer :=
  (hksFileWrite_replaces_iff .lite sampleFiles none (some [0x61]) sampleBuffer (sampleEvents 1)
    (by decide)).mpr rfl

/-- The old bytes behind the new one stay, and in the lite build a write that accepts nothing is a
success. -/
theorem not_replaced : (hksFileWrite .standard sampleFiles none (some [0x61]) 0 (some sampleBuffer)
        (sampleEvents 1)).2 = none ∧
      ¬Replaced .standard (hksFileWrite .standard sampleFiles none (some [0x61]) 0
        (some sampleBuffer) (sampleEvents 1)).1 none (some [0x61]) sampleBuffer ∧
    (hksFileWrite .lite sampleFiles none (some [0x61]) 0 (some sampleBuffer)
        (sampleEvents 0)).2 = none ∧
      ¬Replaced .lite (hksFileWrite .lite sampleFiles none (some [0x61]) 0
        (some sampleBuffer) (sampleEvents 0)).1 none (some [0x61]) sampleBuffer := by
  refine ⟨by decide, fun replaced => ?_, by decide, fun replaced => ?_⟩
  · exact absurd replaced.1 (by decide)
  · exact absurd replaced.1 (by decide)

end TowerSafe.FileOperator
