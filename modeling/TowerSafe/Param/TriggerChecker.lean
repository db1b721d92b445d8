/-
This file embeds the conditions of triggers of `trigger_checker.c`. A condition is converted to a
text with the operators behind their operands, that text is scanned again, with every operand found
by its place, and it is searched for a parameter before that. It says exactly when the search finds
the parameter that a condition compares.
-/

import TowerSafe.Library.Words
import TowerSafe.Param.WorkSpace

namespace TowerSafe.TriggerChecker

open Library List
open Param (CString isSpace checkParamName)

/-! ### The calculator -/

def maxCalcParam : Nat := 100

def maxConditionNumber : Nat := 64

def supportDataBufferMax : Nat := 128

/-- `CalculatorPushChar`, whose result nobody looks at. -/
def calculatorPushChar (stack : CString) (data : Char) : CString :=
  if stack.length < maxCalcParam then data :: stack else stack

/-- `CalculatorPopChar`, which leaves its variable when it fails. -/
def calculatorPopChar (stack : CString) (data : Char) : CString × Char :=
  if stack.length < maxCalcParam then
    match stack with
    | [] => ([], data)
    | top :: rest => (rest, top)
  else (stack, data)

/-! ### The conversion -/

/-- `PrefixAdd`, for a buffer with a length. -/
def prefixAdd (prefixLen : Nat) (out : CString) (op : Char) : Option CString :=
  if prefixLen ≤ out.length + 3 then none else some (out ++ [' ', op, ' '])

/-- The loop of `HandleOperationOr`. -/
def popOperations (prefixLen : Nat) : CString → CString → Option (CString × CString)
  | [], out => some ([], out)
  | top :: rest, out =>
      if top = '(' then some (top :: rest, out)
      else (prefixAdd prefixLen out top).bind (popOperations prefixLen rest)

/-- `HandleOperationOr`. From a full stack nothing can be popped, and the loop does not end well. -/
def handleOperationOr (prefixLen : Nat) (stack out : CString) : Option (CString × CString) :=
  if maxCalcParam ≤ stack.length then none
  else
    (popOperations prefixLen stack (out ++ [' '])).map fun result =>
      (calculatorPushChar result.1 '|', result.2)

/-- The loop for a closing parenthesis, with a bound on its turns, each of which adds to the
buffer. -/
def closeParenthesis (prefixLen : Nat) :
    Nat → CString → Char → CString → Option (CString × Char × CString)
  | 0, _, _, _ => none
  | fuel + 1, stack, e, out =>
      if e = '(' then some (stack, e, out)
      else
        (prefixAdd prefixLen out e).bind fun out =>
          let popped := calculatorPopChar stack e
          closeParenthesis prefixLen fuel popped.1 popped.2 out

/-- The operators that are left at the end. -/
def popRest (prefixLen : Nat) : CString → CString → Option CString
  | [], out => some out
  | top :: rest, out => (prefixAdd prefixLen out top).bind (popRest prefixLen rest)

def checkIndex (prefixLen : Nat) (out : CString) : Option CString :=
  if out.length < prefixLen then some out else none

/-- The loop of `ConvertInfixToPrefix`, with whether the second character of an operator is still
to be skipped, the stack, the variable `e` and the buffer. -/
def convertLoop (prefixLen : Nat) : CString → Bool → CString → Char → CString → Option CString
  | [], _, stack, _, out =>
      if maxCalcParam ≤ stack.length then none else popRest prefixLen stack out
  | _ :: rest, true, stack, e, out => convertLoop prefixLen rest false stack e out
  | char :: rest, false, stack, e, out =>
      if char = ')' then
        let popped := calculatorPopChar stack e
        (closeParenthesis prefixLen (prefixLen + 1) popped.1 popped.2 out).bind fun result =>
          (checkIndex prefixLen result.2.2).bind
            (convertLoop prefixLen rest false result.1 result.2.1)
      else if char = '|' then
        if rest.head? = some '|' then
          (handleOperationOr prefixLen stack out).bind fun result =>
            (checkIndex prefixLen result.2).bind (convertLoop prefixLen rest true result.1 e)
        else none
      else if char = '&' then
        if rest.head? = some '&' then
          (checkIndex prefixLen (out ++ [' '])).bind
            (convertLoop prefixLen rest true (calculatorPushChar stack char) e)
        else none
      else if char = '(' then
        (checkIndex prefixLen out).bind
          (convertLoop prefixLen rest false (calculatorPushChar stack char) e)
      else
        (checkIndex prefixLen (out ++ [char])).bind (convertLoop prefixLen rest false stack e)

def convertInfixToPrefix (condition : CString) (prefixLen : Nat) : Option CString :=
  convertLoop prefixLen condition false [] (Char.ofNat 0) []

/-! ### The computation -/

/-- What a condition is checked against: the parameter that was set, with its value, the trigger
content, and `SystemReadParam`. -/
structure Input where
  input : Option (CString × CString)
  triggerContent : CString
  systemReadParam : CString → Option CString

/-- `LogicData`, with its two flags. -/
structure LogicData where
  isOriginal : Bool
  isTrue : Bool
  startIndex : Nat
  endIndex : Nat
  deriving DecidableEq

def compareValue (condition value : CString) : Bool :=
  condition == ['*'] || condition == value ||
    (condition.contains '*' && (condition.takeWhile (· != '*')).isPrefixOf value)

/-- `GetValueFromContent`: the characters up to an equals sign or to the end. -/
def getValueFromContent (content : CString) (contentSize start : Nat) : Option CString :=
  let value := ((content.take contentSize).drop start).takeWhile (· != '=')
  if value.length < supportDataBufferMax then some value else none

/-- `ComputeSubCondition` for a condition that was not computed yet, from its start on. -/
def computeOriginal (input : Input) (condition : CString) (size : Nat) : Int :=
  if condition.contains '=' ∧ size < (condition.takeWhile (· != '=')).length then
    if input.triggerContent.isPrefixOf condition then 1 else 0
  else
    match getValueFromContent condition size 0 with
    | none => -1
    | some conditionName =>
        match getValueFromContent condition size (conditionName.length + 1) with
        | none => -1
        | some conditionContent =>
            if input.input.map Prod.fst = some conditionName then
              if (input.input.map Prod.snd).any (compareValue conditionContent) then 1 else 0
            else if 0 < conditionName.length then
              if (input.systemReadParam conditionName).any (compareValue conditionContent) then 1
              else 0
            else 0

def computeSubCondition (input : Input) (condition : CString) (data : LogicData) : Int :=
  if data.isOriginal then
    computeOriginal input (condition.drop data.startIndex) (data.endIndex - data.startIndex)
  else if data.isTrue then 1 else 0

def calculatorPush (stack : List LogicData) (data : LogicData) : Option (List LogicData) :=
  if stack.length < maxConditionNumber then some (data :: stack) else none

def calculatorPop (stack : List LogicData) : Option (LogicData × List LogicData) :=
  if stack.length < maxConditionNumber then
    match stack with
    | [] => none
    | top :: rest => some (top, rest)
  else none

/-- What an operator makes of the two conditions that were pushed last. -/
def computeOperator (input : Input) (condition : CString) (operator : Char)
    (data1 data2 : LogicData) : LogicData :=
  let ret := computeSubCondition input condition data1
  { data1 with
    isOriginal := false
    isTrue :=
      if operator = '|' ∧ ret = 1 then true
      else decide ((operator = '|' ∨ ret = 1) ∧ computeSubCondition input condition data2 = 1) }

/-- The loop of `ComputeCondition` from a character on, with the place of the character and the
start of the word it is in. -/
def computeLoop (input : Input) (condition : CString) :
    CString → Nat → Nat → Bool → List LogicData → Int
  | [], currIndex, start, noneOper, stack =>
      if noneOper then computeSubCondition input condition ⟨true, false, start, currIndex⟩
      else
        match calculatorPop stack with
        | none => -1
        | some (data1, _) => computeSubCondition input condition data1
  | char :: rest, currIndex, start, noneOper, stack =>
      if char = '|' ∨ char = '&' then
        match calculatorPop stack with
        | none => -1
        | some (data2, stack) =>
            match calculatorPop stack with
            | none => -1
            | some (data1, stack) =>
                match calculatorPush stack (computeOperator input condition char data1 data2) with
                | none => -1
                | some stack =>
                    computeLoop input condition rest (currIndex + 1) (currIndex + 1) false stack
      else if isSpace char then
        if start = currIndex then
          computeLoop input condition rest (currIndex + 1) (currIndex + 1) noneOper stack
        else
          match calculatorPush stack ⟨true, false, start, currIndex⟩ with
          | none => -1
          | some stack =>
              computeLoop input condition rest (currIndex + 1) (currIndex + 1) noneOper stack
      else computeLoop input condition rest (currIndex + 1) start noneOper stack

def computeCondition (input : Input) (condition : CString) : Int :=
  computeLoop input condition condition 0 0 true []

/-! ### The search -/

/-- The loop of `CheckMatchSubCondition` from a place on, with the character before it; `strstr`
goes on at the next place. -/
def matchLoop (input : CString) (length : Nat) : Option Char → CString → Bool
  | _, [] => false
  | before, char :: rest =>
      if input.isPrefixOf (char :: rest) then
        if (char :: rest).length ≤ length ∨ (char :: rest)[length]? ≠ some '=' then false
        else if before = none ∨ before = some ' ' then true
        else matchLoop input length (some char) rest
      else matchLoop input length (some char) rest

def checkMatchSubCondition (condition input : CString) (length : Nat) : Bool :=
  matchLoop input length none condition

def checkParamCondition (calculator : Input) (condition : CString) : Int :=
  if calculator.input.any fun input =>
      !checkMatchSubCondition condition input.1 input.1.length then 0
  else computeCondition calculator condition

def triggerFlagsRelated : BitVec 24 := 0x02

/-- The fields of `TriggerNode` that are used. -/
structure TriggerNode where
  condition : Option CString
  flags : BitVec 24
  deriving DecidableEq

/-- What the loop of `CheckAndMarkTrigger_` asks of a trigger. -/
def TriggerNode.matches (name : CString) (trigger : TriggerNode) : Bool :=
  trigger.condition.any fun condition => checkMatchSubCondition condition name name.length

/-- `CheckAndMarkTrigger_`, with the triggers of the header. -/
def checkAndMarkTrigger (triggers : List TriggerNode) (name : CString) : List TriggerNode × Bool :=
  (triggers.map fun trigger =>
      if trigger.matches name then { trigger with flags := trigger.flags ||| triggerFlagsRelated }
      else trigger,
    triggers.any (TriggerNode.matches name))

/-! ### What the search is to find -/

def Mentions (condition name : CString) : Prop :=
  ∃ value, name ++ '=' :: value ∈ condition.splitOnP isSpace

/-- The search finds a parameter when an atom compares it, and then no trigger is passed over that
has the condition. -/
structure Meets (condition name : CString) : Prop where
  found : checkMatchSubCondition condition name name.length = true ↔ Mentions condition name
  marked : Mentions condition name → ∀ (before after : List TriggerNode) (flags : BitVec 24),
    checkAndMarkTrigger (before ++ ⟨some condition, flags⟩ :: after) name =
      ((checkAndMarkTrigger before name).1 ++
        ⟨some condition, flags ||| triggerFlagsRelated⟩ :: (checkAndMarkTrigger after name).1, true)
  checked : Mentions condition name → ∀ calculator : Input,
    calculator.input.map Prod.fst = some name →
      checkParamCondition calculator condition = computeCondition calculator condition

/-- If an atom compares a parameter, one does that stands at the start or behind a space, and
wherever the name stands before it an equals sign follows. -/
def InSight (condition name : CString) : Prop :=
  Mentions condition name → ∃ before value, condition = before ++ (name ++ '=' :: value) ∧
    Begins (· == ' ') before ∧
      ∀ first second, condition = first ++ (name ++ second) → first.length < before.length →
        second.head? = some '='

/-! ### The search and the atoms -/

section

variable {condition name : CString}

/-- The atoms that compare a parameter stand at the start or behind white space. -/
theorem mentions_iff (whole : ∀ char ∈ name, isSpace char = false) :
    Mentions condition name ↔ ∃ before value, condition = before ++ (name ++ '=' :: value) ∧
      Begins isSpace before := by
  have start : ∀ char ∈ name ++ ['='], isSpace char = false := fun char member => by
    rcases mem_append.mp member with member | member
    · exact whole char member
    · rw [mem_singleton.mp member]
      decide
  have words := @mem_splitOnP_iff _ isSpace (name ++ ['=']) condition start
  simp only [append_assoc, singleton_append] at words
  exact words

/-- A comparison of a parameter behind a space, with the character before the text, and an equals
sign wherever the name stands before it. -/
structure Seen (name : CString) (last : Option Char) (text before : CString) : Prop where
  compares : ∃ value, text = before ++ (name ++ '=' :: value)
  behind : ∀ other ∈ before.getLast?.or last, other = ' '
  earlier : ∀ first second, text = first ++ (name ++ second) → first.length < before.length →
    second.head? = some '='

variable {last : Option Char} {char : Char} {text rest before : CString}

theorem seen_nil : Seen name last text [] ↔
    (∃ value, text = name ++ '=' :: value) ∧ ∀ other ∈ last, other = ' ' :=
  ⟨fun seen => ⟨seen.compares, seen.behind⟩, fun ⟨compares, behind⟩ =>
    ⟨compares, behind, fun _ _ _ no => absurd no (Nat.not_lt_zero _)⟩⟩

theorem seen_cons : Seen name last (char :: rest) (char :: before) ↔
    Seen name (some char) rest before ∧
      ∀ second, char :: rest = name ++ second → second.head? = some '=' := by
  have lastChar : (char :: before).getLast?.or last = before.getLast?.or (some char) := by
    rw [List.getLast?_cons]
    cases before.getLast? <;> rfl
  refine ⟨fun seen => ⟨⟨?_, lastChar ▸ seen.behind, fun first second same less => ?_⟩,
    fun second same => ?_⟩, fun ⟨seen, here⟩ => ⟨?_, lastChar.symm ▸ seen.behind,
      fun first second same less => ?_⟩⟩
  · obtain ⟨value, same⟩ := seen.compares
    exact ⟨value, (List.cons.inj same).2⟩
  · exact seen.earlier (char :: first) second (congrArg (char :: ·) same) (Nat.succ_lt_succ less)
  · exact seen.earlier [] second same (Nat.succ_pos _)
  · obtain ⟨value, same⟩ := seen.compares
    exact ⟨value, congrArg (char :: ·) same⟩
  · cases first with
    | nil => exact here second same
    | cons head first =>
      exact seen.earlier first second (List.cons.inj same).2 (Nat.lt_of_succ_lt_succ less)

theorem exists_seen_cons : (∃ before, Seen name last (char :: rest) before) ↔
    Seen name last (char :: rest) [] ∨ (∃ before, Seen name (some char) rest before) ∧
      ∀ second, char :: rest = name ++ second → second.head? = some '=' := by
  refine ⟨fun ⟨before, seen⟩ => ?_, fun either => ?_⟩
  · cases before with
    | nil => exact .inl seen
    | cons head before =>
      obtain ⟨value, same⟩ := seen.compares
      obtain ⟨rfl, -⟩ := List.cons.inj same
      obtain ⟨further, here⟩ := seen_cons.mp seen
      exact .inr ⟨⟨before, further⟩, here⟩
  · rcases either with here | ⟨⟨before, further⟩, here⟩
    · exact ⟨[], here⟩
    · exact ⟨char :: before, seen_cons.mpr ⟨further, here⟩⟩

theorem getElem?_length {second : CString} (same : name ++ second = text) :
    text[name.length]? = second.head? := by
  rw [← same, List.getElem?_append_right (Nat.le_refl _), Nat.sub_self, List.head?_eq_getElem?]

theorem behind_name {value : CString} (same : name ++ '=' :: value = text) :
    ¬text.length ≤ name.length ∧ ¬text[name.length]? ≠ some '=' := by
  refine ⟨?_, not_not.mpr (getElem?_length same)⟩
  rw [← same, length_append, length_cons]
  omega

theorem behind_name_of_ne {second : CString} (same : name ++ second = text)
    (other : second.head? ≠ some '=') : text.length ≤ name.length ∨ text[name.length]? ≠ some '=' :=
  .inr ((getElem?_length same).symm ▸ other)

/-- The search ends well exactly when a comparison is seen. -/
theorem matchLoop_iff : matchLoop name name.length last text = true ↔
    ∃ before, Seen name last text before := by
  induction text generalizing last with
  | nil =>
    refine iff_of_false Bool.false_ne_true fun ⟨before, seen⟩ => ?_
    obtain ⟨value, same⟩ := seen.compares
    simp at same
  | cons char rest hypothesis =>
    rw [exists_seen_cons, seen_nil, matchLoop]
    by_cases stands : name <+: char :: rest
    · obtain ⟨second, same⟩ := stands
      have only : ∀ other, char :: rest = name ++ other → other = second := fun other again =>
        append_cancel_left (again.symm.trans same.symm)
      rw [if_pos (List.isPrefixOf_iff_prefix.mpr ⟨second, same⟩)]
      by_cases equals : second.head? = some '='
      · obtain ⟨value, rfl⟩ := List.head?_eq_some_iff.mp equals
        rw [if_neg (not_or.mpr (behind_name same))]
        have compares : ∃ value, char :: rest = name ++ '=' :: value := ⟨value, same.symm⟩
        have here : ∀ second, char :: rest = name ++ second → second.head? = some '=' :=
          fun other again => only other again ▸ equals
        by_cases behind : last = none ∨ last = some ' '
        · rw [if_pos behind]
          refine iff_of_true rfl (.inl ⟨compares, fun other isLast => ?_⟩)
          rcases behind with rfl | rfl
          · cases isLast
          · exact (Option.some.inj isLast).symm
        · rw [if_neg behind, hypothesis]
          refine ⟨fun seen => .inr ⟨seen, here⟩, fun either => either.elim (fun first => ?_)
            And.left⟩
          cases last with
          | none => exact absurd (.inl rfl) behind
          | some other => exact absurd (.inr (congrArg some (first.2 other rfl))) behind
      · rw [if_pos (behind_name_of_ne same equals)]
        refine iff_of_false Bool.false_ne_true fun either => ?_
        rcases either with ⟨⟨value, again⟩, -⟩ | ⟨-, here⟩
        · exact equals (only _ again ▸ rfl)
        · exact equals (here second same.symm)
    · rw [if_neg fun no => stands (List.isPrefixOf_iff_prefix.mp no), hypothesis]
      have never : ∀ second, char :: rest ≠ name ++ second := fun second same =>
        stands ⟨second, same.symm⟩
      refine ⟨fun seen => .inr ⟨seen, fun second same => absurd same (never second)⟩,
        fun either => ?_⟩
      rcases either with ⟨⟨value, same⟩, -⟩ | ⟨seen, -⟩
      · exact absurd same (never _)
      · exact seen

theorem checkMatchSubCondition_iff : checkMatchSubCondition condition name name.length = true ↔
    ∃ before value, condition = before ++ (name ++ '=' :: value) ∧ Begins (· == ' ') before ∧
      ∀ first second, condition = first ++ (name ++ second) → first.length < before.length →
        second.head? = some '=' := by
  unfold checkMatchSubCondition
  rw [matchLoop_iff]
  refine ⟨fun ⟨before, seen⟩ => ?_, fun ⟨before, value, same, begins, earlier⟩ =>
    ⟨before, ⟨value, same⟩, fun other isLast => ?_, earlier⟩⟩
  · obtain ⟨value, same⟩ := seen.compares
    refine ⟨before, value, same, fun other isLast => ?_, seen.earlier⟩
    have space := seen.behind other (by rw [Option.or_none]; exact isLast)
    rw [space]
    rfl
  · rw [Option.or_none] at isLast
    exact beq_iff_eq.mp (begins other isLast)

theorem isSpace_of_nameChar (valid : char = '.' ∨ char = '_' ∨ char = '-' ∨ char = '@' ∨
    char = ':' ∨ Param.isAlnum char = true) : isSpace char = false := by
  rcases valid with rfl | rfl | rfl | rfl | rfl | valid
  · rfl
  · rfl
  · rfl
  · rfl
  · rfl
  · have least : '0' ≤ char := by
      unfold Param.isAlnum at valid
      simp only [Bool.or_eq_true, Bool.and_eq_true, decide_eq_true_eq] at valid
      rcases valid with (⟨low, -⟩ | ⟨low, -⟩) | ⟨low, -⟩
      · exact low
      · exact Char.le_trans (by decide) low
      · exact Char.le_trans (by decide) low
    have notSpace : char ≠ ' ' := fun same => absurd (same ▸ least) (by decide)
    have notLow : ¬char ≤ '\r' := fun low => absurd (Char.le_trans least low) (by decide)
    unfold Param.isSpace
    simp only [notSpace, notLow, decide_false, Bool.and_false, Bool.or_false]

theorem whole_of_checkNameChars (checked : Param.checkNameChars name = true) :
    ∀ char ∈ name, isSpace char = false := by
  induction name with
  | nil => exact fun _ no => absurd no not_mem_nil
  | cons first rest hypothesis =>
    have valid := checked
    rw [Param.checkNameChars.eq_def] at valid
    split at valid
    · cases ‹first :: rest = []›
    · cases valid
    · rename_i one others _ same
      obtain ⟨rfl, rfl⟩ := List.cons.inj same
      simp only [Bool.and_eq_true, Bool.or_eq_true, decide_eq_true_eq] at valid
      refine forall_mem_cons.mpr ⟨isSpace_of_nameChar ?_, hypothesis valid.2⟩
      simpa only [or_assoc] using valid.1

theorem whole_of_checkParamName {info : Bool} (named : checkParamName name info = .success) :
    ∀ char ∈ name, isSpace char = false := by
  unfold checkParamName at named
  split at named
  · cases named
  split at named
  · rename_i hash
    rw [hash]
    exact forall_mem_singleton.mpr rfl
  split at named
  · cases named
  split at named
  · exact whole_of_checkNameChars ‹_›
  · cases named

theorem mentions_of_match (whole : ∀ char ∈ name, isSpace char = false)
    (found : checkMatchSubCondition condition name name.length = true) :
    Mentions condition name := by
  obtain ⟨before, value, same, begins, -⟩ := checkMatchSubCondition_iff.mp found
  refine (mentions_iff whole).mpr ⟨before, value, same, fun other isLast => ?_⟩
  rw [beq_iff_eq.mp (begins other isLast)]
  rfl

end

/-- The search finds a parameter exactly when the atoms that compare it are in sight. -/
theorem match_iff_inSight (condition name : CString) (info : Bool)
    (named : checkParamName name info = .success) :
    Meets condition name ↔ InSight condition name := by
  have whole := whole_of_checkParamName named
  refine ⟨fun meets mentions => checkMatchSubCondition_iff.mp (meets.found.mpr mentions),
    fun inSight => ?_⟩
  have found : Mentions condition name → checkMatchSubCondition condition name name.length = true :=
    fun mentions => checkMatchSubCondition_iff.mpr (inSight mentions)
  refine ⟨⟨mentions_of_match whole, found⟩, fun mentions before after flags => ?_,
    fun mentions calculator isName => ?_⟩
  · have isMarked : (TriggerNode.mk (some condition) flags).matches name = true := found mentions
    unfold checkAndMarkTrigger
    rw [List.map_append, List.map_cons, if_pos isMarked, List.any_append, List.any_cons, isMarked,
      Bool.true_or, Bool.or_true]
  · obtain ⟨⟨other, value⟩, isInput, rfl⟩ := Option.map_eq_some_iff.mp isName
    unfold checkParamCondition
    rw [isInput, if_neg]
    rw [Option.any_some, found mentions]
    exact Bool.false_ne_true

/-- A condition with two parameters, the first of which begins like the second. -/
theorem match_iff_inSight_sample :
    convertInfixToPrefix "a=2&&a.b=1".toList 2048 = some "a=2 a.b=1 & ".toList ∧
      Meets "a=2 a.b=1 & ".toList "a".toList := by
  refine ⟨by decide, (match_iff_inSight _ _ false (by decide)).mpr fun _ => ?_⟩
  exact ⟨[], "2 a.b=1 & ".toList, rfl, begins_nil, fun _ _ _ no => absurd no (Nat.not_lt_zero _)⟩

/-- A parameter behind one that begins with its name is passed over. -/
theorem longer_name_first : ¬∀ (infix_ condition name : CString) (prefixLen : Nat),
      convertInfixToPrefix infix_ prefixLen = some condition →
        checkParamName name false = .success → Meets condition name :=
  fun meets => by
    have found := (meets "ab=1||a=1".toList "ab=1 a=1 | ".toList "a".toList 2048
      (by decide) (by decide)).found.mpr ⟨"1".toList, by decide⟩
    revert found
    decide

end TowerSafe.TriggerChecker
