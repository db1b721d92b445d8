/-
This file embeds the batch save and the load of the persist adapter that writes a temporary file
(`param_persistadp.c`), on a disk that holds the temporary file and the saved file. It says exactly
after which prefixes of the file operations of a batch save a load reads the complete old set or the
complete new set: the loader takes the temporary file whenever it exists, so a save that stops while
that file is being written is not one of them, unless what is written so far is a complete set.

The stream of the standard library decides how the lines that are printed are cut into writes, so
the writes are any nonempty pieces that make up the lines.
-/

import Mathlib.Data.List.Basic
import Mathlib.Logic.Function.Basic

namespace TowerSafe.TempFile

open List

/-! ### The disk -/

/-- The content of a file. -/
abbrev Content := List Char

/-- `PARAM_PERSIST_SAVE_TMP_PATH` and `PARAM_PERSIST_SAVE_PATH`, or the two paths of the updater
mode. -/
inductive Path where
  | tmp
  | save
  deriving DecidableEq

/-- What is in the files; a file that does not exist has no content. -/
abbrev Disk := Path → Option Content

/-- The operations on files. -/
inductive FileOp where
  | unlink (path : Path)
  /-- `fopen` with the mode `w`. -/
  | fopen (path : Path)
  | write (path : Path) (bytes : Content)
  | fclose (path : Path)
  | rename (oldpath newpath : Path)
  deriving DecidableEq

/-- What an operation does to the disk. -/
def FileOp.apply (disk : Disk) : FileOp → Disk
  | .unlink path => Function.update disk path none
  | .fopen path => Function.update disk path (some [])
  | .write path bytes => Function.update disk path ((disk path).map (· ++ bytes))
  | .fclose _ => disk
  | .rename oldpath newpath =>
      match disk oldpath with
      | none => disk
      | some content => Function.update (Function.update disk newpath (some content)) oldpath none

def run (disk : Disk) (ops : List FileOp) : Disk :=
  ops.foldl FileOp.apply disk

/-! ### The adapter -/

/-- The line that `BatchSavePersistParam` prints for a parameter. -/
def printLine (param : Content × Content) : Content :=
  param.1 ++ '=' :: param.2 ++ ['\n']

def printSet (params : List (Content × Content)) : Content :=
  (params.map printLine).flatten

/-- The pieces in which a stream writes a content. -/
structure Pieces (content : Content) where
  pieces : List Content
  joined : pieces.flatten = content
  nonempty : ∀ piece ∈ pieces, piece ≠ []

/-- The file operations of `BatchSavePersistParamBegin`, of all `BatchSavePersistParam` and of
`BatchSavePersistParamEnd`. -/
def batchSave (pieces : List Content) : List FileOp :=
  [.unlink .tmp, .fopen .tmp] ++ pieces.map (.write .tmp) ++
    [.fclose .tmp, .unlink .save, .rename .tmp .save]

/-- What `LoadPersistParam` reads: the temporary file if there is one, else the saved file. Without
a file it reads nothing. -/
def loadPersistParam (disk : Disk) : Content :=
  match disk .tmp with
  | some content => content
  | none => (disk .save).getD []

/-! ### Interrupted saves -/

variable {disk : Disk}

@[simp] theorem loadPersistParam_unlink_tmp :
    loadPersistParam (FileOp.apply disk (.unlink .tmp)) = (disk .save).getD [] := by
  simp [loadPersistParam, FileOp.apply]

theorem run_writes {content : Content} (pieces : List Content) (holds : disk .tmp = some content) :
    run disk (pieces.map (.write .tmp)) =
      Function.update disk .tmp (some (content ++ pieces.flatten)) := by
  induction pieces generalizing disk content with
  | nil =>
    rw [flatten_nil, append_nil, ← holds]
    exact (Function.update_eq_self _ _).symm
  | cons piece rest hypothesis =>
    have written : FileOp.apply disk (.write .tmp piece) =
        Function.update disk .tmp (some (content ++ piece)) := by
      rw [FileOp.apply, holds, Option.map_some]
    show run (FileOp.apply disk (.write .tmp piece)) (rest.map _) = _
    rw [written, hypothesis (Function.update_self ..), Function.update_idem,
      append_assoc, flatten_cons]

theorem run_written (pieces : List Content) :
    run disk ([.unlink .tmp, .fopen .tmp] ++ pieces.map (.write .tmp)) =
      Function.update disk .tmp (some pieces.flatten) := by
  have opened : FileOp.apply (FileOp.apply disk (.unlink .tmp)) (.fopen .tmp) =
      Function.update disk .tmp (some []) := by
    simp only [FileOp.apply, Function.update_idem]
  show run (FileOp.apply (FileOp.apply disk (.unlink .tmp)) (.fopen .tmp)) (pieces.map _) = _
  rw [opened, run_writes pieces (Function.update_self ..), nil_append, Function.update_idem]

theorem load_written (pieces : List Content) :
    loadPersistParam (run disk ([.unlink .tmp, .fopen .tmp] ++ pieces.map (.write .tmp))) =
      pieces.flatten := by
  rw [run_written, loadPersistParam, Function.update_self]

theorem load_closed (pieces : List Content) (count : Nat) :
    loadPersistParam (run disk ([.unlink .tmp, .fopen .tmp] ++ pieces.map (.write .tmp) ++
      [.fclose .tmp, .unlink .save, .rename .tmp .save].take count)) = pieces.flatten := by
  have written := @run_written disk pieces
  rw [run, foldl_append]
  rw [run] at written
  rw [written]
  match count with
  | 0 => rfl
  | 1 => rfl
  | 2 => rfl
  | count + 3 =>
    rw [take_of_length_le (show 3 ≤ count + 3 from Nat.le_add_left ..)]
    rfl

theorem take_flatten_ne {content : Content} (stream : Pieces content) {count : Nat}
    (fewer : count < stream.pieces.length) : (stream.pieces.take count).flatten ≠ content := by
  intro same
  have split := congrArg List.flatten (take_append_drop count stream.pieces)
  rw [flatten_append, same, stream.joined] at split
  have rest : (stream.pieces.drop count).flatten = [] := append_right_eq_self.mp split
  have member : stream.pieces[count] ∈ stream.pieces.drop count :=
    mem_drop_iff_getElem.mpr ⟨0, by omega, by simp⟩
  exact stream.nonempty _ (getElem_mem fewer) (flatten_eq_nil_iff.mp rest _ member)

/-- A save that stops after some of its operations stops at a complete set: before its first
operation; after the temporary file was removed, when the saved file holds the old or the new set;
or when all pieces are written, or those that are written make up the old set. -/
def StopsComplete (disk : Disk) (pieces : List Content) : Nat → Prop
  | 0 => True
  | 1 => (disk .save).getD [] = loadPersistParam disk ∨ (disk .save).getD [] = pieces.flatten
  | count + 2 =>
      pieces.length ≤ count ∨ (pieces.take count).flatten = loadPersistParam disk

/-- After a batch save was interrupted, a load reads the complete old set or the complete new set if
and only if the save stopped at a complete set. -/
theorem load_complete_iff (disk : Disk) (params : List (Content × Content))
    (stream : Pieces (printSet params)) (count : Nat) :
    loadPersistParam (run disk ((batchSave stream.pieces).take count)) = loadPersistParam disk ∨
        loadPersistParam (run disk ((batchSave stream.pieces).take count)) = printSet params ↔
      StopsComplete disk stream.pieces count := by
  match count with
  | 0 => exact iff_of_true (.inl rfl) trivial
  | 1 =>
    have reads : loadPersistParam (run disk ((batchSave stream.pieces).take 1)) =
        (disk .save).getD [] := loadPersistParam_unlink_tmp
    rw [reads, StopsComplete, stream.joined]
  | count + 2 =>
    rcases Nat.lt_or_ge count stream.pieces.length with fewer | all
    · have reads : (batchSave stream.pieces).take (count + 2) =
          [.unlink .tmp, .fopen .tmp] ++ (stream.pieces.take count).map (.write .tmp) := by
        show _ :: _ :: (stream.pieces.map _ ++ _).take count = _
        rw [List.take_append_of_le_length (by rw [List.length_map]; omega), ← List.map_take]
        rfl
      rw [reads, load_written]
      have partly := take_flatten_ne stream fewer
      constructor
      · rintro (old | new)
        · exact .inr old
        · exact absurd new partly
      · rintro (late | old)
        · omega
        · exact .inl old
    · have reads : (batchSave stream.pieces).take (count + 2) =
          [.unlink .tmp, .fopen .tmp] ++ stream.pieces.map (.write .tmp) ++
            [.fclose .tmp, .unlink .save, .rename .tmp .save].take
              (count - stream.pieces.length) := by
        show _ :: _ :: (stream.pieces.map _ ++ _).take count = _
        rw [List.take_append, List.take_of_length_le (by rw [List.length_map]; omega),
          List.length_map]
        rfl
      rw [reads, load_closed, stream.joined]
      exact iff_of_true (.inr rfl) (.inl all)

def savedDisk : Disk
  | .tmp => none
  | .save => some (printSet [("persist.a".toList, "1".toList)])

/-- The stream that writes a set in one piece. -/
def onePiece : Pieces (printSet [("persist.a".toList, "2".toList)]) :=
  ⟨[printSet [("persist.a".toList, "2".toList)]], by decide, by decide⟩

/-- After the temporary file was opened, a load reads nothing. -/
theorem load_incomplete : ¬∀ (disk : Disk) (params : List (Content × Content))
    (stream : Pieces (printSet params)) (count : Nat),
    loadPersistParam (run disk ((batchSave stream.pieces).take count)) = loadPersistParam disk ∨
      loadPersistParam (run disk ((batchSave stream.pieces).take count)) = printSet params := by
  intro all
  exact absurd (all savedDisk _ onePiece 2) (by decide)

end TowerSafe.TempFile
