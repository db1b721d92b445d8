/-
This file embeds the loader of the persistent parameters on a LiteOS-M device, which cuts a file
into lines in place and writes what each line assigns. It says exactly when every line is applied as
if it stood alone.
-/

import TowerSafe.Param.WorkSpace

namespace TowerSafe.PersistLoad

open Param
open List

/-! ### One line -/

def cString (bytes : List Char) : CString :=
  bytes.takeWhile (· ≠ '\x00')

/-- The name in front of `=`, which ends at the first space. -/
def nameOf (before : CString) : CString :=
  before.takeWhile fun char => !isSpace char

/-- The name in place: its first space is overwritten. -/
def endName (before : CString) : List Char :=
  nameOf before ++
    match before.dropWhile (fun char => !isSpace char) with
    | [] => []
    | _ :: more => '\x00' :: more

def trimValue (value : CString) : CString :=
  (value.dropWhile isSpace).rdropWhile isSpace

/-- Whether a trimmed value starts and ends with a quotation mark, which are not the same one. -/
def quoted (trimmed : CString) : Bool :=
  trimmed.head? = some '"' && 1 < trimmed.length && trimmed.getLast? = some '"'

/-- The value behind `=`, without the spaces and the quotation marks around it. -/
def valueOf (value : CString) : CString :=
  if quoted (trimValue value) then (trimValue value).tail.dropLast else trimValue value

/-- The value in place: the spaces and the quotation mark behind it are overwritten. -/
def endValue (value : CString) : List Char :=
  let kept := if quoted (trimValue value) then (trimValue value).dropLast else trimValue value
  value.takeWhile isSpace ++ kept ++
    List.replicate ((value.dropWhile isSpace).length - kept.length) '\x00'

/-- `SplitParamString`: what it leaves in place of the string, and what it passes to `result`. -/
def splitParamString (exclude : List CString) (line : CString) :
    List Char × Option (CString × CString) :=
  let spaces := line.takeWhile isSpace
  let text := line.dropWhile isSpace
  if text.head? = none ∨ text.head? = some '#' then (line, none)
  else
    let before := text.takeWhile (· ≠ '=')
    match text.dropWhile (· ≠ '=') with
    | [] => (spaces ++ endName before, none)
    | _ :: value =>
        if value = [] ∨ exclude.any (·.isPrefixOf (nameOf before)) then
          (spaces ++ endName before ++ '\x00' :: value, none)
        else
          (spaces ++ endName before ++ '\x00' :: endValue value,
            some (nameOf before, valueOf value))

/-- `LoadOnePersistParam_`, with whether it returns zero. -/
def loadOnePersistParam (space : WorkSpace) (name value : CString) : WorkSpace × Bool :=
  match space.writeParam name value false with
  | (next, .success) => (next, true)
  | (next, _) => (next, false)

/-- What `SplitParamString` returns for the loader, with what its call of `result` does. -/
def callResult (space : WorkSpace) : Option (CString × CString) → WorkSpace × Bool
  | none => (space, true)
  | some (name, value) => loadOnePersistParam space name value

/-! ### The file -/

/-- The loop of `LoadPersistParam` over the file in memory, with the stores that it has made after
each line. On a failure the loop goes on without having moved `tmp` or `currLen`. -/
def loadLoop : Nat → WorkSpace → List Char → Nat → Nat → Option (List WorkSpace)
  | 0, _, _, _, _ => none
  | fuel + 1, space, buffer, currLen, tmp =>
      if currLen < buffer.length then
        if buffer[currLen]? = some '\n' then
          let buffer := buffer.set currLen '\x00'
          let line := cString (buffer.drop tmp)
          let (text, call) := splitParamString [] line
          let buffer := buffer.take tmp ++ text ++ buffer.drop (tmp + line.length)
          let (next, done) := callResult space call
          if done = false then (loadLoop fuel next buffer currLen tmp).map (next :: ·)
          else if currLen + 1 ≥ buffer.length then some [next]
          else (loadLoop fuel next buffer (currLen + 1) (currLen + 1)).map (next :: ·)
        else loadLoop fuel space buffer (currLen + 1) tmp
      else some []

/-- `LoadPersistParam`, with the contents of the two files it may open. -/
def loadPersistParam (fuel : Nat) (space : WorkSpace) (tmpFile savedFile : Option (List Char)) :
    Option (List WorkSpace) :=
  match tmpFile.or savedFile with
  | none => some []
  | some content => loadLoop fuel space content 0 0

/-! ### Lines on their own -/

def lines (content : List Char) : List (List Char) :=
  (content.splitOn '\n').dropLast

def assignment (line : List Char) : Option (CString × CString) :=
  (splitParamString [] (cString line)).2

/-- What a line does to the store when it stands alone: it is acceptable and its parameter is
written, or nothing happens. -/
def applyLine (space : WorkSpace) (line : List Char) : WorkSpace :=
  match callResult space (assignment line) with
  | (next, true) => next
  | (_, false) => space

/-- The stores after each of some lines that stand alone. -/
def applyLines : WorkSpace → List (List Char) → List WorkSpace
  | _, [] => []
  | space, line :: rest => applyLine space line :: applyLines (applyLine space line) rest

/-- The lines do not depend on each other: a failing line leaves the store as it is, and so would
the line behind it, which is not looked at (`skipped`). -/
def Independent : WorkSpace → Bool → List (List Char) → Prop
  | _, _, [] => True
  | space, true, line :: rest => applyLine space line = space ∧ Independent space false rest
  | space, false, line :: rest =>
      match callResult space (assignment line) with
      | (next, true) => Independent next false rest
      | (next, false) => next = space ∧ Independent space true rest

/-- The stores that the loader makes: it does not look at the line behind a failing one. -/
def walk : WorkSpace → Bool → List (List Char) → List WorkSpace
  | _, _, [] => []
  | space, true, _ :: rest => space :: walk space false rest
  | space, false, line :: rest =>
      let (next, done) := callResult space (assignment line)
      next :: walk next (!done) rest

/-! ### What is left in place -/

theorem length_endName (before : CString) : (endName before).length = before.length := by
  have parts := congrArg List.length
    (takeWhile_append_dropWhile (p := fun char => !isSpace char) (l := before))
  rw [length_append] at parts
  unfold endName nameOf
  rw [length_append]
  split
  · rename_i nothing
    rw [nothing] at parts
    exact parts
  · rename_i more
    rw [more] at parts
    exact parts

theorem length_endValue (value : CString) : (endValue value).length = value.length := by
  have parts := congrArg List.length (takeWhile_append_dropWhile (p := isSpace) (l := value))
  have trimmed : (trimValue value).length ≤ (value.dropWhile isSpace).length :=
    (List.rdropWhile_prefix isSpace _).length_le
  rw [length_append] at parts
  unfold endValue
  split
  · rw [length_append, length_append, length_replicate, length_dropLast]
    omega
  · rw [length_append, length_append, length_replicate]
    omega

theorem length_splitParamString (exclude : List CString) (line : CString) :
    (splitParamString exclude line).1.length = line.length := by
  have parts := congrArg List.length (takeWhile_append_dropWhile (p := isSpace) (l := line))
  have halves := congrArg List.length
    (takeWhile_append_dropWhile (p := (· ≠ '=')) (l := line.dropWhile isSpace))
  rw [length_append] at parts halves
  unfold splitParamString
  dsimp only
  split
  · rfl
  split
  · rename_i nothing
    rw [nothing] at halves
    rw [length_append, length_endName]
    simp only [length_nil] at halves
    omega
  · rename_i equals value isValue
    rw [isValue, length_cons] at halves
    split
    · rw [length_append, length_append, length_endName, length_cons]
      omega
    · rw [length_append, length_append, length_endName, length_cons, length_endValue]
      omega

variable {exclude : List CString} {line : CString}

theorem splitParamString_of_not_mem
    (absent : '=' ∉ line.dropWhile isSpace) : (splitParamString exclude line).2 = none := by
  unfold splitParamString
  dsimp only
  split
  · rfl
  have nothing : (line.dropWhile isSpace).dropWhile (· ≠ '=') = [] :=
    dropWhile_eq_nil_iff.mpr fun char member =>
      decide_eq_true fun same => absent (same ▸ member)
  rw [nothing]

theorem cString_append {front back : List Char} (whole : '\x00' ∉ front)
    (ends : back.head? = none ∨ back.head? = some '\x00') : cString (front ++ back) = front := by
  have all : ∀ char ∈ front, decide (char ≠ '\x00') = true := fun char member =>
    decide_eq_true fun same => whole (same ▸ member)
  unfold cString
  rw [takeWhile_append_of_pos all]
  cases back with
  | nil => exact append_nil front
  | cons char rest =>
    obtain rfl : char = '\x00' := Option.some.inj (ends.resolve_left nofun)
    rw [takeWhile_cons_of_neg (by decide), append_nil]

theorem not_mem_cString (bytes : List Char) : '\x00' ∉ cString bytes := fun member =>
  absurd (mem_takeWhile_imp member) (by decide)

theorem splitParamString_of_some {call : CString × CString}
    (passed : (splitParamString exclude line).2 = some call) :
    ∃ before value, line.dropWhile isSpace = before ++ '=' :: value ∧ '=' ∉ before ∧
      (splitParamString exclude line).1 =
        line.takeWhile isSpace ++ endName before ++ '\x00' :: endValue value := by
  unfold splitParamString at passed ⊢
  dsimp only at passed ⊢
  split at passed
  · cases passed
  rename_i given
  rw [if_neg given]
  cases isValue : (line.dropWhile isSpace).dropWhile (· ≠ '=') with
  | nil =>
    rw [isValue] at passed
    cases passed
  | cons equals value =>
    rw [isValue] at passed
    dsimp only at passed ⊢
    split at passed
    · cases passed
    rename_i some_
    rw [if_neg some_]
    have halves := takeWhile_append_dropWhile (p := (· ≠ '=')) (l := line.dropWhile isSpace)
    have isEquals : equals = '=' := by
      have head := head_dropWhile_not (· ≠ '=') (l := line.dropWhile isSpace)
        (by rw [isValue]; exact cons_ne_nil _ _)
      simp only [isValue, head_cons] at head
      exact Decidable.not_not.mp (of_decide_eq_false head)
    rw [isValue, isEquals] at halves
    exact ⟨_, value, halves.symm,
      fun member => absurd (mem_takeWhile_imp member) (by decide), rfl⟩

theorem assignment_again {call : CString × CString}
    (whole : '\x00' ∉ line) (passed : (splitParamString exclude line).2 = some call)
    (back : List Char) :
    assignment ((splitParamString exclude line).1 ++ '\x00' :: back) = none := by
  obtain ⟨before, value, halves, noEquals, isText⟩ := splitParamString_of_some passed
  have inLine : ∀ char ∈ nameOf before, char ∈ line := fun char member =>
    (dropWhile_sublist isSpace).subset
      (halves ▸ mem_append_left _ ((takeWhile_sublist _).subset member))
  have isString : cString ((splitParamString exclude line).1 ++ '\x00' :: back) =
      line.takeWhile isSpace ++ nameOf before := by
    rw [isText]
    unfold endName
    simp only [append_assoc]
    rw [← append_assoc]
    refine cString_append (fun member => ?_) (.inr ?_)
    · rcases mem_append.mp member with inSpaces | inName
      · exact whole ((takeWhile_sublist _).subset inSpaces)
      · exact whole (inLine _ inName)
    · split
      · rfl
      · rfl
  unfold assignment
  rw [isString]
  refine splitParamString_of_not_mem fun member => ?_
  rw [dropWhile_append_of_pos fun char inSpaces => mem_takeWhile_imp inSpaces] at member
  exact noEquals ((takeWhile_sublist _).subset
    ((dropWhile_sublist isSpace).subset member))

/-! ### The loop -/

section Loop

variable {space : WorkSpace} {buffer front line rest head content : List Char}
  {fuel currLen tmp : Nat}

theorem loadLoop_of_other (inside : currLen < buffer.length)
    (other : buffer[currLen]? ≠ some '\n') : loadLoop (fuel + 1) space buffer currLen tmp =
      loadLoop fuel space buffer (currLen + 1) tmp := by
  rw [loadLoop, if_pos inside, if_neg other]

theorem loadLoop_scan (noNewline : '\n' ∉ line) :
    loadLoop (line.length + fuel) space (front ++ line ++ rest) front.length tmp =
      loadLoop fuel space (front ++ line ++ rest) (front ++ line).length tmp := by
  induction line generalizing front with
  | nil => rw [length_nil, Nat.zero_add, append_nil]
  | cons char others hypothesis =>
    have here : (front ++ char :: others ++ rest)[front.length]? = some char := by
      rw [append_assoc, List.getElem?_append_right (Nat.le_refl _), Nat.sub_self]
      rfl
    have inside : front.length < (front ++ char :: others ++ rest).length := by
      simp only [length_append, length_cons]
      omega
    have other : some char ≠ some '\n' := fun same =>
      noNewline (Option.some.inj same ▸ mem_cons_self)
    have whole : front ++ char :: others = front ++ [char] ++ others := by
      rw [append_assoc, singleton_append]
    have later := @hypothesis (front ++ [char]) fun member => noNewline (.tail _ member)
    rw [length_append] at later
    rw [length_cons, Nat.add_right_comm, loadLoop_of_other inside (here ▸ other), whole]
    exact later

/-- What the loader leaves in place of a line. -/
def inPlace (line : List Char) : List Char :=
  (splitParamString [] (cString line)).1 ++ line.drop (cString line).length

theorem length_inPlace : (inPlace line).length = line.length := by
  have shorter := (List.takeWhile_prefix (l := line) (· ≠ '\x00')).length_le
  unfold inPlace
  rw [length_append, length_splitParamString, length_drop]
  unfold cString
  omega

theorem cString_line : cString (line ++ '\x00' :: rest) = cString line := by
  unfold cString
  induction line with
  | nil => rw [nil_append, takeWhile_cons_of_neg (by decide), takeWhile_nil]
  | cons char others hypothesis =>
    rw [cons_append, takeWhile_cons, takeWhile_cons, hypothesis]

theorem loadLoop_newline :
    loadLoop (fuel + 1) space (front ++ head ++ '\n' :: rest) (front ++ head).length front.length =
      (if (callResult space (assignment head)).2 = false then
        loadLoop fuel (callResult space (assignment head)).1
          (front ++ inPlace head ++ '\x00' :: rest) (front ++ head).length front.length
      else if rest = [] then some [] else loadLoop fuel (callResult space (assignment head)).1
        (front ++ inPlace head ++ '\x00' :: rest) ((front ++ head).length + 1)
          ((front ++ head).length + 1)).map ((callResult space (assignment head)).1 :: ·) := by
  have here : (front ++ head ++ '\n' :: rest)[(front ++ head).length]? = some '\n' := by
    rw [List.getElem?_append_right (Nat.le_refl _), Nat.sub_self]
    rfl
  have inside : (front ++ head).length < (front ++ head ++ '\n' :: rest).length := by
    simp only [length_append, length_cons]
    omega
  have isSet : (front ++ head ++ '\n' :: rest).set (front ++ head).length '\x00' =
      front ++ head ++ '\x00' :: rest := by
    rw [set_append_right _ _ (Nat.le_refl _), Nat.sub_self]
    rfl
  have isDrop : (front ++ head ++ '\x00' :: rest).drop front.length = head ++ '\x00' :: rest := by
    rw [append_assoc, drop_left]
  have isTake : (front ++ head ++ '\x00' :: rest).take front.length = front := by
    rw [append_assoc, take_left]
  have shorter : (cString head).length ≤ head.length :=
    (List.takeWhile_prefix (l := head) (· ≠ '\x00')).length_le
  have isBuffer : front ++ (splitParamString [] (cString head)).1 ++
      (front ++ head ++ '\x00' :: rest).drop (front.length + (cString head).length) =
        front ++ inPlace head ++ '\x00' :: rest := by
    unfold inPlace
    rw [← drop_drop, isDrop, drop_append_of_le_length shorter]
    simp only [append_assoc]
  have ends : ((front ++ head).length + 1 ≥ (front ++ inPlace head ++ '\x00' :: rest).length) ↔
      rest = [] := by
    rw [← length_eq_zero_iff]
    simp only [length_append, length_cons, length_inPlace]
    omega
  rw [loadLoop, if_pos inside, if_pos here, isSet]
  dsimp only
  rw [isDrop, cString_line, isTake, isBuffer]
  unfold assignment
  split
  · rfl
  simp only [ends]
  split
  · rfl
  · rfl

theorem lines_of_not_mem (noNewline : '\n' ∉ content) : lines content = [] := by
  unfold lines
  rw [splitOn_eq_singleton noNewline]
  rfl

theorem lines_cons (noNewline : '\n' ∉ line) :
    lines (line ++ '\n' :: rest) = line :: lines rest := by
  unfold lines
  rw [splitOn_append_cons_self, splitOn_eq_singleton noNewline, singleton_append,
    dropLast_cons_of_ne_nil (splitOn_ne_nil _ _)]

theorem assignment_inPlace {call : CString × CString} (passed : assignment line = some call)
    (back : List Char) : assignment (inPlace line ++ '\x00' :: back) = none := by
  have again := assignment_again (not_mem_cString line) passed
  unfold inPlace
  have isDrop : line.drop (cString line).length = line.dropWhile (· ≠ '\x00') :=
    (congrArg (List.drop (cString line).length)
      (takeWhile_append_dropWhile (p := (· ≠ '\x00')) (l := line))).symm.trans drop_left
  rw [isDrop, append_assoc]
  cases isMore : line.dropWhile (· ≠ '\x00') with
  | nil => exact again back
  | cons char more =>
    have head := head_dropWhile_not (· ≠ '\x00') (l := line)
      (by rw [isMore]; exact cons_ne_nil _ _)
    simp only [isMore, head_cons] at head
    obtain rfl := Decidable.not_not.mp (of_decide_eq_false head)
    exact again (more ++ '\x00' :: back)

/-- The loop walks through the lines, where a failing line is still what `tmp` points to when the
loop meets the end of the next one. -/
theorem loadLoop_eq_walk (size : Nat) :
    ∀ {space : WorkSpace} {skipped : Bool} {front head content : List Char} {fuel : Nat},
      content.length ≤ size →
      (skipped = true → ∀ back, assignment (head ++ back) = none) →
      (skipped = false → head = []) →
      2 * content.length + 1 ≤ fuel →
      loadLoop fuel space (front ++ head ++ content) (front ++ head).length front.length =
        some (walk space skipped (lines content)) := by
  induction size with
  | zero =>
    intro space skipped front head content fuel isSize _ _ enough
    obtain rfl := length_eq_zero_iff.mp (Nat.le_zero.mp isSize)
    obtain ⟨fuel, rfl⟩ := Nat.exists_eq_add_one_of_ne_zero (by omega : fuel ≠ 0)
    rw [loadLoop, if_neg (by simp)]
    rfl
  | succ size hypothesis =>
    intro space skipped front head content fuel isSize dead fresh enough
    by_cases newline : '\n' ∈ content
    · obtain ⟨line, rest, rfl, noNewline⟩ := eq_append_cons_of_mem newline
      simp only [length_append, length_cons] at isSize enough
      obtain ⟨more, rfl⟩ : ∃ more, fuel = line.length + (more + 1) :=
        ⟨fuel - line.length - 1, by omega⟩
      have scanned := @loadLoop_scan space (front ++ head) line ('\n' :: rest) (more + 1)
        front.length noNewline
      rw [← append_assoc, scanned, append_assoc front, loadLoop_newline, lines_cons noNewline]
      have isRest : rest = [] → lines rest = [] := by
        rintro rfl
        exact lines_of_not_mem (by simp)
      have later : ∀ next, (if rest = [] then some [] else loadLoop more next
          (front ++ inPlace (head ++ line) ++ '\x00' :: rest)
          ((front ++ (head ++ line)).length + 1) ((front ++ (head ++ line)).length + 1)) =
            some (walk next false (lines rest)) := by
        intro next
        split
        · rename_i nothing
          rw [isRest nothing]
          rfl
        have remaining := @hypothesis next false
          (front ++ inPlace (head ++ line) ++ ['\x00']) [] rest more (by omega) nofun
          (fun _ => rfl) (by omega)
        simp only [append_nil, length_append, length_inPlace, length_singleton,
          append_assoc, singleton_append] at remaining ⊢
        exact remaining
      cases skipped with
      | true =>
        rw [dead rfl line]
        simp only [callResult, Bool.true_eq_false, if_false]
        rw [later space]
        rfl
      | false =>
        obtain rfl := fresh rfl
        rw [nil_append] at later ⊢
        cases outcome : callResult space (assignment line) with
        | mk next done =>
          cases done with
          | true =>
            rw [later next, walk, outcome]
            rfl
          | false =>
            obtain ⟨call, passed⟩ : ∃ call, assignment line = some call := by
              cases isCall : assignment line with
              | none =>
                rw [isCall] at outcome
                cases outcome
              | some call => exact ⟨call, rfl⟩
            obtain ⟨less, rfl⟩ := Nat.exists_eq_add_one_of_ne_zero (by omega : more ≠ 0)
            have inside : (front ++ line).length <
                (front ++ inPlace line ++ '\x00' :: rest).length := by
              simp only [length_append, length_cons, length_inPlace]
              omega
            have other : (front ++ inPlace line ++ '\x00' :: rest)[(front ++ line).length]? ≠
                some '\n' := by
              have sameLength : (front ++ line).length = (front ++ inPlace line).length := by
                simp only [length_append, length_inPlace]
              rw [sameLength, List.getElem?_append_right (Nat.le_refl _), Nat.sub_self]
              exact fun same => absurd (Option.some.inj same) (by decide)
            have remaining := @hypothesis next true front (inPlace line ++ ['\x00']) rest
              less (by omega)
              (fun _ back => by
                rw [append_assoc]
                exact assignment_inPlace passed back)
              nofun (by omega)
            rw [loadLoop_of_other inside other, walk, outcome]
            simp only [length_append, length_inPlace, length_singleton,
              append_assoc, singleton_append, ← Nat.add_assoc] at remaining ⊢
            rw [remaining]
            rfl
    · have scanned := @loadLoop_scan space (front ++ head) content [] (fuel - content.length)
        front.length newline
      rw [append_nil, Nat.add_sub_cancel' (by omega)] at scanned
      obtain ⟨less, isLess⟩ := Nat.exists_eq_add_one_of_ne_zero
        (by omega : fuel - content.length ≠ 0)
      rw [scanned, isLess, loadLoop, if_neg (Nat.lt_irrefl _), lines_of_not_mem newline]
      rfl

end Loop

/-! ### Independence -/

/-- The loader's stores are those of the lines on their own exactly when the lines are
independent. -/
theorem walk_eq_iff (lines : List (List Char)) : ∀ (space : WorkSpace) (skipped : Bool),
    walk space skipped lines = applyLines space lines ↔ Independent space skipped lines := by
  induction lines with
  | nil => exact fun _ _ => iff_of_true rfl trivial
  | cons line rest hypothesis =>
    intro space skipped
    cases skipped with
    | true =>
      simp only [walk, applyLines, Independent, List.cons.injEq]
      constructor
      · rintro ⟨same, others⟩
        rw [← same] at others
        exact ⟨same.symm, (hypothesis space false).mp others⟩
      · rintro ⟨same, others⟩
        rw [same]
        exact ⟨rfl, (hypothesis space false).mpr others⟩
    | false =>
      cases outcome : callResult space (assignment line) with
      | mk next done =>
        simp only [walk, applyLines, applyLine, Independent, outcome, List.cons.injEq]
        cases done with
        | true => exact (and_iff_right rfl).trans (hypothesis next false)
        | false =>
          refine and_congr_right ?_
          rintro rfl
          exact hypothesis next true

/-- The loader ends for every content of the files. After each line its store is what the lines so
far make of it on their own exactly when no failing line leaves anything in the store and no line
behind a failing one that was looked at would change the store. -/
theorem loadPersistParam_iff (space : WorkSpace) (tmpFile savedFile : Option (List Char)) :
    ∃ enough stores,
      (∀ fuel, enough ≤ fuel → loadPersistParam fuel space tmpFile savedFile = some stores) ∧
      (stores = applyLines space (lines ((tmpFile.or savedFile).getD [])) ↔
        Independent space false (lines ((tmpFile.or savedFile).getD []))) := by
  unfold loadPersistParam
  cases tmpFile.or savedFile with
  | none => exact ⟨0, [], fun _ _ => rfl, iff_of_true rfl trivial⟩
  | some content =>
    refine ⟨2 * content.length + 1, walk space false (lines content), fun fuel enough => ?_,
      walk_eq_iff _ _ _⟩
    exact @loadLoop_eq_walk content.length space false [] [] content fuel (Nat.le_refl _) nofun
      (fun _ => rfl) enough

def sampleFile : List Char :=
  "const.a=1\nconst.a=2\nb=3\n".toList

def lastValue (name : CString) (stores : List WorkSpace) : Option CString :=
  stores.getLast?.bind (·.readParam name)

/-- The third line is lost, although it is acceptable. -/
theorem line_behind_failure : ((initParamWorkSpace 1024).bind fun space =>
      (loadPersistParam 99 space none (some sampleFile)).map (lastValue ['b'])) = some none ∧
    ((initParamWorkSpace 1024).map fun space =>
      lastValue ['b'] (applyLines space (lines sampleFile))) = some (some ['3']) := by
  decide

end TowerSafe.PersistLoad
