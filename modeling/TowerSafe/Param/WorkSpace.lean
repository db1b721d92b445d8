/-
This file embeds the parameter workspace (`param_trie.c` and the part of `param_comm.c` that checks,
adds and updates parameters and adds security labels). A workspace is an area of bounded size in
which trie nodes, parameter entries and labels are allocated one behind the other and never freed. A
name is split at its dots, and its parts lead from the root, whose key is `#`, through search trees
of siblings. A node without children is searched with its own siblings: `findLoop` keeps that, with
the path of the node that it ends at.

Offsets, sizes and counters are natural numbers, as an area is far smaller than an offset can
address; the commit ids are machine words.
-/

import Mathlib
import TowerSafe.Library.SearchTrie

namespace TowerSafe.Param

open Library

/-! ### Names and values -/

/-- A string, without its terminating zero. -/
abbrev CString := List Char

def paramConstValueLenMax : Nat := 4096

def paramValueLenMax : Nat := 96

def paramNameLenMax : Nat := 96

def paramTypeMask : BitVec 8 := 0x0f

def paramTypeString : BitVec 8 := 0x00

def paramTypeInt : BitVec 8 := 0x01

def paramTypeBool : BitVec 8 := 0x02

/-- The codes that the calls return. -/
inductive ParamCode where
  | success
  | invalidParam
  | invalidName
  | invalidValue
  | reachedMax
  | notFound
  | readOnly
  | nodeExist
  deriving DecidableEq

def isSpace (character : Char) : Bool :=
  character = ' ' || ('\t' ≤ character && character ≤ '\r')

def isAlnum (character : Char) : Bool :=
  ('0' ≤ character && character ≤ '9') || ('a' ≤ character && character ≤ 'z') ||
    ('A' ≤ character && character ≤ 'Z')

def isReadyOnly (name : CString) : Bool :=
  "const.".toList.isPrefixOf name || "ro.".toList.isPrefixOf name

/-- The characters of a name, and whether two dots follow each other. -/
def checkNameChars : CString → Bool
  | [] => true
  | '.' :: '.' :: _ => false
  | character :: rest =>
      (character = '.' || character = '_' || character = '-' || character = '@' ||
        character = ':' || isAlnum character) && checkNameChars rest

def checkParamName (name : CString) (info : Bool) : ParamCode :=
  if name.length ≥ paramNameLenMax then .invalidName
  else if name = ['#'] then .success
  else if name.length < 1 ∨ name.head? = some '.' ∨ (info = false ∧ name.getLast? = some '.') then
    .invalidName
  else if checkNameChars name then .success
  else .invalidName

def digitsValue (base : Nat) (digits : List Nat) : Nat :=
  digits.foldl (fun value digit => value * base + digit) 0

def digitValue (character : Char) : Nat :=
  if '0' ≤ character ∧ character ≤ '9' then character.toNat - '0'.toNat
  else if 'a' ≤ character ∧ character ≤ 'z' then character.toNat - 'a'.toNat + 10
  else if 'A' ≤ character ∧ character ≤ 'Z' then character.toNat - 'A'.toNat + 10
  else 36

/-- A number that `strtoull` reads to its end without an overflow. -/
def isNumber (base : Nat) (text : CString) : Bool :=
  let digits := text.map digitValue
  text ≠ [] && digits.all (· < base) && digitsValue base digits < 2 ^ 64

/-- Whether `StringToULL` succeeds. -/
def stringToULL (text : CString) : Bool :=
  match text.dropWhile isSpace with
  | '-' :: _ => false
  | '0' :: 'x' :: rest => isNumber 16 rest
  | '0' :: 'X' :: rest => isNumber 16 rest
  | '+' :: rest => isNumber 10 rest
  | rest => isNumber 10 rest

/-- `strcasecmp` with a text in lower case. -/
def sameIgnoringCase (lower text : CString) : Bool :=
  lower = text.map Char.toLower

def validValue : List CString :=
  ["1", "0", "true", "false", "y", "yes", "on", "off", "n", "no"].map String.toList

/-- `CheckParamValueType`. A number with a sign fails in any case, so `StringToLL` does not
matter. -/
def checkParamValueType (value : CString) (paramType : BitVec 8) : ParamCode :=
  if paramType = paramTypeInt then
    if stringToULL value then .success else .invalidValue
  else if paramType = paramTypeBool then
    if validValue.any fun lower => sameIgnoringCase lower value then .success else .invalidValue
  else .success

def getParamMaxLen (paramType : BitVec 8) : Nat :=
  match paramType.toNat with
  | 0 => paramValueLenMax
  | 1 => 32
  | 2 => 8
  | _ => paramValueLenMax

/-- `CheckParamValue`, with the data index of the node that was found. -/
def checkParamValue (dataIndex : Nat) (name value : CString) (paramType : BitVec 8) : ParamCode :=
  if isReadyOnly name then
    if value.length ≥ paramConstValueLenMax then .invalidValue
    else if dataIndex ≠ 0 then .readOnly
    else checkParamValueType value paramType
  else if value.length ≥ getParamMaxLen paramType then .invalidValue
  else checkParamValueType value paramType

/-! ### The workspace -/

/-- The indexes of a trie node. -/
structure Indexes where
  labelIndex : Nat
  dataIndex : Nat
  deriving DecidableEq

/-- A tree of `ParamTrieNode`. -/
abbrev ParamTrie := SearchTrie CString Indexes

def Indexes.zero : Indexes :=
  ⟨0, 0⟩

/-- `ParamNode`, with the name and the value that its data hold. -/
structure ParamNode where
  commitId : BitVec 32
  type : BitVec 8
  key : CString
  value : CString
  deriving DecidableEq

/-- `keyLength`, which is a byte. -/
def ParamNode.keyLength (entry : ParamNode) : Nat :=
  entry.key.length % 2 ^ 8

structure ParamSecurityNode where
  uid : Nat
  gid : Nat
  mode : BitVec 16
  type : BitVec 8
  deriving DecidableEq

/-- A workspace: the tree at its root, the entries and labels by their offsets, and the fields of
`ParamTrieHeader`. -/
structure WorkSpace where
  root : ParamTrie
  entries : Nat → Option ParamNode
  labels : Nat → Option ParamSecurityNode
  commitId : BitVec 64
  currOffset : Nat
  dataSize : Nat

def paramAlign (length : Nat) : Nat :=
  (length + 3) / 4 * 4

/-- The size of `ParamTrieNode`. -/
def sizeofParamTrieNode : Nat := 24

/-- The size of `ParamNode`. -/
def sizeofParamNode : Nat := 8

/-- The size of `ParamSecurityNode`. -/
def sizeofParamSecurityNode : Nat := 12

/-- `strncmp` of two strings of one length. -/
def strncmp : CString → CString → Ordering
  | first :: rest, other :: others =>
      if first = other then strncmp rest others else if first < other then .lt else .gt
  | _, _ => .eq

/-- `CompareParamTrieNode` of the key of a node with a key. -/
def compareTrieNode (nodeKey key : CString) : Ordering :=
  if nodeKey.length > key.length then .lt
  else if nodeKey.length < key.length then .gt
  else strncmp nodeKey key

def rootKey : CString := ['#']

/-- The parts of a key, as `GetNextKey` finds them one after the other; a dot at the end does not
begin another part. -/
def subKeys : CString → List CString
  | [] => [[]]
  | ['.'] => [[]]
  | '.' :: rest => [] :: subKeys rest
  | character :: rest =>
      match subKeys rest with
      | [] => [[character]]
      | part :: parts => (character :: part) :: parts

def trieNodeSize (key : CString) : Nat :=
  paramAlign (key.length + sizeofParamTrieNode + 1)

/-- `AllocateParamTrieNode`, of the room that is left behind an offset. -/
def allocateParamTrieNode (dataSize currOffset : Nat) (key : CString) : Option Nat :=
  if currOffset + trieNodeSize key < dataSize then some (currOffset + trieNodeSize key) else none

/-- The room that a parameter takes: that of its value on demand if it is read-only, or too long for
any other. -/
def paramNodeSize (type : BitVec 8) (key value : CString) : Nat :=
  paramAlign (sizeofParamNode + 1 + 1 + key.length +
    if value.length > paramValueLenMax ∨ isReadyOnly key then value.length
    else getParamMaxLen type)

/-- Where the search for a key ends: the node and its path, if there is one, and the label that was
matched last. -/
structure Found where
  node : Option (ParamTrie × List CString)
  matchLabel : Nat
  deriving DecidableEq

/-- The loop of `FindTrieNode_` behind a node. The parts that are left are looked for in the
children of the node or, when it has none, in the tree of its own siblings. -/
def findLoop (current : ParamTrie) (path : List CString) (matchLabel : Nat) :
    List CString → Found
  | [] => ⟨some (current, path), matchLabel⟩
  | part :: rest =>
      if part = [] then ⟨none, matchLabel⟩
      else
        let next := if current.child ≠ .leaf then current.child else current
        let above := if current.child ≠ .leaf then path else path.dropLast
        match next.find compareTrieNode part with
        | .leaf => ⟨none, matchLabel⟩
        | .node key indexes left right child =>
            findLoop (.node key indexes left right child) (above ++ [part])
              (if indexes.labelIndex ≠ 0 then indexes.labelIndex else matchLabel) rest

namespace WorkSpace

variable (space : WorkSpace)

def nodeAt (path : List CString) : Option Indexes :=
  space.root.lookup compareTrieNode (rootKey :: path)

/-- `GetTrieNode` of a parameter. -/
def entryAt (index : Nat) : Option ParamNode :=
  if index = 0 ∨ index > space.dataSize then none else space.entries index

/-- `GetTrieNode` of a label. -/
def labelAt (index : Nat) : Option ParamSecurityNode :=
  if index = 0 ∨ index > space.dataSize then none else space.labels index

def rootLabel : Nat :=
  (space.root.data?.map Indexes.labelIndex).getD 0

def findTrieNode_ (key : CString) : Found :=
  if key = [] then ⟨none, 0⟩
  else if compareTrieNode rootKey key = .eq then ⟨some (space.root, [rootKey]), space.rootLabel⟩
  else findLoop space.root [rootKey] space.rootLabel (subKeys key)

/-- `FindTrieNode`: a node that has data is found only under a key of the length of its name. -/
def findTrieNode (key : CString) : Found :=
  let found := space.findTrieNode_ key
  match found.node with
  | none => found
  | some (node, _) =>
      match node.data? with
      | none => found
      | some indexes =>
          if indexes.dataIndex ≠ 0 ∧
              ¬(space.entryAt indexes.dataIndex).any (fun entry => entry.keyLength = key.length)
          then ⟨none, found.matchLabel⟩
          else found

/-- The data index of the node that `FindTrieNode` finds, zero when it finds none. -/
def findDataIndex (key : CString) : Nat :=
  ((space.findTrieNode key).node.bind fun node => node.1.data?).elim 0 Indexes.dataIndex

/-- `AddTrieNode`: the nodes of the parts before an empty one are added in any case. -/
def addTrieNode (key : CString) : WorkSpace × Bool :=
  if key = [] then (space, false)
  else
    let parts := subKeys key
    let proper := parts.takeWhile fun part => part ≠ []
    let added := SearchTrie.addPath compareTrieNode (allocateParamTrieNode space.dataSize)
      Indexes.zero (rootKey :: proper) space.root space.currOffset
    ({ space with root := added.1.1, currOffset := added.1.2 },
      added.2 && decide (proper.length = parts.length))

def addParamNode (type : BitVec 8) (key value : CString) : Option (WorkSpace × Nat) :=
  if space.currOffset + paramNodeSize type key value < space.dataSize then
    some ({ space with
      entries := Function.update space.entries space.currOffset (some ⟨0, type, key, value⟩)
      currOffset := space.currOffset + paramNodeSize type key value }, space.currOffset)
  else none

def addParamSecurityNode (label : ParamSecurityNode) : Option (WorkSpace × Nat) :=
  if space.currOffset + sizeofParamSecurityNode < space.dataSize then
    some ({ space with
      labels := Function.update space.labels space.currOffset
        (some { label with type := label.type &&& paramTypeMask })
      currOffset := space.currOffset + sizeofParamSecurityNode }, space.currOffset)
  else none

/-- `SaveIndex` in the node at a path. -/
def saveIndex (path : List CString) (change : Indexes → Indexes) : WorkSpace :=
  { space with root := space.root.alterAt compareTrieNode change path }

def getParamValueType (name : CString) : BitVec 8 :=
  match space.labelAt (space.findTrieNode name).matchLabel with
  | none => paramTypeString
  | some label => label.type

def addParam (type : BitVec 8) (name value : CString) : WorkSpace × ParamCode :=
  let path := rootKey :: subKeys name
  match space.addTrieNode name with
  | (space, false) => (space, .reachedMax)
  | (space, true) =>
      match space.root.lookup compareTrieNode path with
      | none => (space, .reachedMax)
      | some indexes =>
          match space.entryAt indexes.dataIndex with
          | some _ => (space, .success)
          | none =>
              match space.addParamNode type name value with
              | none => (space, .reachedMax)
              | some (space, offset) =>
                  ({ space.saveIndex path (fun indexes => { indexes with dataIndex := offset }) with
                    commitId := space.commitId + 1 }, .success)

def paramFlagsCommitId : BitVec 32 := 0x0000ffff

/-- The commit id that `UpdateParam` stores: the next one, with the flags of the last. -/
def nextCommitId (commitId : BitVec 32) : BitVec 32 :=
  (commitId + 1) ||| (commitId &&& ~~~paramFlagsCommitId)

/-- What `UpdateParam` makes of an entry. -/
def updateEntry (entry : ParamNode) (value : CString) : ParamNode :=
  { entry with
    commitId := nextCommitId entry.commitId
    value :=
      if entry.value.length < paramValueLenMax ∧ value.length < paramValueLenMax then value
      else entry.value }

def updateParam (dataIndex : Nat) (name value : CString) : WorkSpace × ParamCode :=
  match space.entryAt dataIndex with
  | none => (space, .reachedMax)
  | some entry =>
      if entry.keyLength ≠ name.length then (space, .invalidName)
      else
        ({ space with
          entries := Function.update space.entries dataIndex (some (updateEntry entry value))
          commitId := space.commitId + 1 }, .success)

/-- `WriteParam`; `onlyAdd` is the mode `LOAD_PARAM_ONLY_ADD`. -/
def writeParam (name value : CString) (onlyAdd : Bool) : WorkSpace × ParamCode :=
  let dataIndex := space.findDataIndex name
  if dataIndex ≠ 0 then
    if onlyAdd then (space, .readOnly)
    else
      match space.entryAt dataIndex with
      | none => (space, .reachedMax)
      | some entry =>
          match checkParamValue dataIndex name value entry.type with
          | .success => space.updateParam dataIndex name value
          | code => (space, code)
  else
    let type := space.getParamValueType name
    match checkParamValue dataIndex name value type with
    | .success => space.addParam type name value
    | code => (space, code)

/-- What looking a name up gives: `FindTrieNode`, and the value at its data index. -/
def readParam (name : CString) : Option CString :=
  let dataIndex := space.findDataIndex name
  if dataIndex ≠ 0 then (space.entryAt dataIndex).map ParamNode.value else none

/-- The path of the node that `AddSecurityLabel` labels: the one it finds or, if there is none, the
one it adds. -/
def nodeToLabel (name : CString) : WorkSpace × Option (List CString) :=
  match (space.findTrieNode name).node with
  | some (_, path) => (space, some path)
  | none =>
      match space.addTrieNode name with
      | (space, true) => (space, some (rootKey :: subKeys name))
      | (space, false) => (space, none)

def addSecurityLabel (name : CString) (label : ParamSecurityNode) : WorkSpace × ParamCode :=
  match checkParamName name true with
  | .success =>
      match space.nodeToLabel name with
      | (space, none) => (space, .reachedMax)
      | (space, some path) =>
          match space.root.lookup compareTrieNode path with
          | none => (space, .reachedMax)
          | some indexes =>
              if indexes.labelIndex = 0 then
                match space.addParamSecurityNode label with
                | none => (space, .reachedMax)
                | some (space, offset) =>
                    (space.saveIndex path fun indexes => { indexes with labelIndex := offset },
                      .success)
              else (space, .success)
  | code => (space, code)

end WorkSpace

/-- `InitWorkSpace`: the root is at offset zero. -/
def initWorkSpace (dataSize : Nat) : Option WorkSpace :=
  (allocateParamTrieNode dataSize 0 rootKey).map fun currOffset =>
    ⟨.node rootKey Indexes.zero .leaf .leaf .leaf, fun _ => none, fun _ => none, 0, currOffset,
      dataSize⟩

/-- The label that `InitParamWorkSpace` gives to the root. -/
def defaultLabel : ParamSecurityNode :=
  ⟨0, 0, 0o777, paramTypeString⟩

/-- `InitParamWorkSpace`, as far as the workspace goes. -/
def initParamWorkSpace (dataSize : Nat) : Option WorkSpace :=
  (initWorkSpace dataSize).bind fun space =>
    match space.addSecurityLabel ['#'] defaultLabel with
    | (space, .success) => some space
    | _ => none

end TowerSafe.Param
