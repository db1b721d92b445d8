/-
This file models the parser of configuration byte code: the lengths of attributes and nodes, the
check of the header, and the two passes over the code, of which the first adds up the memory of the
tree and the second builds it, with the parents recovered from a stack of end offsets. A read of a
byte outside of the string has no result.
-/

import TowerSafe.Hdf.Sbuf

namespace TowerSafe.Hcs

open Library
open Sbuf (Target)

/-! ### The blob -/

def configNode : Nat := 0x1

def configAttr : Nat := 0x2

def configReference : Nat := 0x3

def configArray : Nat := 0x4

def configByte : Nat := 0x10

def configWord : Nat := 0x11

def configDword : Nat := 0x12

def configQword : Nat := 0x13

def configString : Nat := 0x14

def hbcMagicNumber : Nat := 0xa00aa00a

/-- `HBC_HEADER_LENGTH`: the magic number, two versions, the check sum and the size. -/
def hbcHeaderLength : Nat := 20

def hbcBlobMaxLength : Nat := 1024 * 1024 * 10

def hcsAlignSize : Nat := 4

def hcsDwordLength : Nat := 4

def hcsQwordLength : Nat := 8

def treeStackMax : Nat := 64

def hdfFailure : Int := -1

/-- A size in the blob: in byte code that is aligned it is rounded up. -/
def align (byteAlign : Bool) (size : Nat) : Nat :=
  if byteAlign then (size + hcsAlignSize - 1) / hcsAlignSize * hcsAlignSize else size

def hcsPrefixLength (byteAlign : Bool) : Nat := if byteAlign then hcsDwordLength else 1

theorem hcsPrefixLength_pos (byteAlign : Bool) : 0 < hcsPrefixLength byteAlign := by
  cases byteAlign <;> decide

def hcsByteLength (byteAlign : Bool) : Nat := if byteAlign then hcsDwordLength else 1

def hcsWordLength (byteAlign : Bool) : Nat := if byteAlign then hcsDwordLength else 2

/-- An unsigned number at a place, if all its bytes are there. -/
def readNat (blob : Bytes) (place width : Nat) : Option Nat :=
  if place + width ≤ blob.length then some (Bytes.toNat (Bytes.slice blob place width)) else none

/-- `strlen`, if the terminator is there. -/
def strlen (blob : Bytes) (place : Nat) : Option Nat :=
  let length := ((blob.drop place).takeWhile (· ≠ 0)).length
  if place + length < blob.length then some length else none

section

variable (byteAlign : Bool) (blob : Bytes)

def hcsGetPrefix (start : Nat) : Option Nat :=
  if byteAlign then readNat blob start 4 else readNat blob start 1

def hcsStringLength (start : Nat) : Option Nat :=
  (strlen blob start).map fun length => align byteAlign (length + 1)

/-- `HcsSwapToUint16` of a word. -/
def hcsSwapWordToUint16 (realValue : Nat) : Option Nat :=
  if byteAlign then (readNat blob realValue 4).map (· % 2 ^ 16) else readNat blob realValue 2

def hcsGetDataTypeOffset (start : Nat) : Option Int := do
  let code ← hcsGetPrefix byteAlign blob start
  if code = configByte then
    pure (hcsByteLength byteAlign + hcsPrefixLength byteAlign : Nat)
  else if code = configWord then
    pure (hcsWordLength byteAlign + hcsPrefixLength byteAlign : Nat)
  else if code = configDword ∨ code = configReference then
    pure (hcsDwordLength + hcsPrefixLength byteAlign : Nat)
  else if code = configQword then
    pure (hcsQwordLength + hcsPrefixLength byteAlign : Nat)
  else if code = configString then do
    let length ← hcsStringLength byteAlign blob (start + hcsPrefixLength byteAlign)
    pure (length + hcsPrefixLength byteAlign : Nat)
  else pure hdfFailure

/-- The loop of `HcsGetArrayLength` over so many elements that are left. -/
def arrayLoop (start : Nat) : Nat → Nat → Option Int
  | 0, arrayLen => pure arrayLen
  | left + 1, arrayLen => do
    let lenData ← hcsGetDataTypeOffset byteAlign blob (start + arrayLen)
    if lenData < 0 then pure hdfFailure else arrayLoop start left (arrayLen + lenData.toNat)

def hcsGetArrayLength (start : Nat) : Option Int := do
  let count ← hcsSwapWordToUint16 byteAlign blob (start + hcsPrefixLength byteAlign)
  arrayLoop byteAlign blob start count (hcsPrefixLength byteAlign + hcsWordLength byteAlign)

/-- The length of the value of an attribute, as `HcsGetAttrLength` finds it. -/
def attrDataLength (start : Nat) : Option Int := do
  let code ← hcsGetPrefix byteAlign blob start
  if code = configByte ∨ code = configWord ∨ code = configDword ∨ code = configQword ∨
      code = configString ∨ code = configReference then
    hcsGetDataTypeOffset byteAlign blob start
  else if code = configArray then hcsGetArrayLength byteAlign blob start
  else pure hdfFailure

def hcsGetAttrLength (start : Nat) : Option Int := do
  let nameLength ← hcsStringLength byteAlign blob (start + hcsPrefixLength byteAlign)
  let length := hcsPrefixLength byteAlign + nameLength
  let dataLen ← attrDataLength byteAlign blob (start + length)
  if dataLen < 0 then pure hdfFailure else pure (dataLen + length)

def hcsGetNodeOrAttrLength (start : Nat) : Option Int := do
  let code ← hcsGetPrefix byteAlign blob start
  if code = configNode then do
    let nameLength ← hcsStringLength byteAlign blob (start + hcsPrefixLength byteAlign)
    pure (nameLength + hcsPrefixLength byteAlign + hcsDwordLength : Nat)
  else if code = configAttr then hcsGetAttrLength byteAlign blob start
  else pure hdfFailure

/-- The value of 32 bits as an `int32_t`. -/
def toInt32 (value : Int) : Int := (BitVec.ofInt 32 value).toInt

/-- `HcsGetNodeLength`: the sum is kept in 32 bits. -/
def hcsGetNodeLength (start : Nat) : Option Int := do
  let rootLen ← hcsGetNodeOrAttrLength byteAlign blob start
  if rootLen < 0 then pure hdfFailure
  else do
    let nameLength ← hcsStringLength byteAlign blob (start + hcsPrefixLength byteAlign)
    let size ← readNat blob (start + hcsPrefixLength byteAlign + nameLength) hcsDwordLength
    pure (toInt32 (rootLen + size))

end

/-! ### The tree -/

/-- `struct DeviceResourceAttr`: the places of the name and of the value. -/
structure DeviceResourceAttr where
  name : Nat
  value : Nat
  deriving DecidableEq

/-- `struct DeviceResourceNode`, with the list that starts at `attrData`, and the list that starts
at `child` and is linked by `sibling`, as indexes of nodes. -/
structure DeviceResourceNode where
  name : Nat
  hashValue : Nat
  attrData : List DeviceResourceAttr
  parent : Option Nat
  child : List Nat
  deriving DecidableEq

/-- `sizeof (struct DeviceResourceNode)`. -/
def sizeofNode : Target → Nat
  | .ilp32 => 24
  | .lp64 => 48

/-- `sizeof (struct DeviceResourceAttr)`. -/
def sizeofAttr : Target → Nat
  | .ilp32 => 12
  | .lp64 => 24

/-- The memory of the tree: the nodes in the order in which they were placed, and how many bytes
`treeMem` has moved. -/
structure TreeMem where
  nodes : List DeviceResourceNode
  used : Nat

structure TreeStack where
  offset : Nat
  node : Nat

/-- What the two passes keep: no memory in the first one, whose `treeLayerOrMemLen` is the length of
the memory, while it is the depth in the second one. -/
structure ParseState where
  treeMem : Option TreeMem
  treeStack : List TreeStack
  treeLayerOrMemLen : Nat

/-- The stack is as `OsalMemCalloc` gives it. -/
def emptyStack : List TreeStack := List.replicate treeStackMax ⟨0, 0⟩

theorem getD_set_self {treeStack : List TreeStack} {place : Nat} (entry : TreeStack)
    (inside : place < treeStack.length) :
    (treeStack.set place entry).getD place ⟨0, 0⟩ = entry := by
  rw [List.getD_eq_getElem?_getD, List.getElem?_set_self inside, Option.getD_some]

theorem getD_set_ne (treeStack : List TreeStack) {place other : Nat} (entry : TreeStack)
    (differs : place ≠ other) :
    (treeStack.set place entry).getD other ⟨0, 0⟩ = treeStack.getD other ⟨0, 0⟩ := by
  rw [List.getD_eq_getElem?_getD, List.getElem?_set_ne differs, ← List.getD_eq_getElem?_getD]

/-- `GetParentNode`, from a layer down: the layer and the node that reach over an end. -/
def getParentNode (treeStack : List TreeStack) (bound : Nat) : Nat → Option (Nat × Nat)
  | 0 => none
  | layer + 1 =>
    let entry := treeStack.getD (layer + 1) ⟨0, 0⟩
    if bound ≤ entry.offset then some (layer + 1, entry.node)
    else getParentNode treeStack bound layer

/-- `CreateTreeNode`: a node is placed and becomes the last child of its parent. -/
def createTreeNode (target : Target) (byteAlign : Bool) (treeStart offset : Nat)
    (parentNode : Option Nat) (treeMem : TreeMem) : TreeMem :=
  let newNode := {
    name := treeStart + offset + hcsPrefixLength byteAlign
    hashValue := offset + hbcHeaderLength
    attrData := []
    parent := parentNode
    child := [] }
  let linked := match parentNode with
    | none => treeMem.nodes
    | some parent =>
      treeMem.nodes.modify parent fun node =>
        { node with child := node.child ++ [treeMem.nodes.length] }
  { nodes := linked ++ [newNode], used := treeMem.used + sizeofNode target }

def updateTreeStack (state : ParseState) (newNode offset : Nat) : Option ParseState :=
  if treeStackMax - 1 ≤ state.treeLayerOrMemLen then none
  else some { state with
    treeLayerOrMemLen := state.treeLayerOrMemLen + 1
    treeStack := state.treeStack.set (state.treeLayerOrMemLen + 1) ⟨offset, newNode⟩ }

/-- `AddAttrInNode`, of an attribute whose name has a length. -/
def addAttrInNode (target : Target) (byteAlign : Bool) (start nameLength parentNode : Nat)
    (treeMem : TreeMem) : TreeMem :=
  let newAttr := {
    name := start + hcsPrefixLength byteAlign
    value := start + hcsPrefixLength byteAlign + nameLength }
  { nodes := treeMem.nodes.modify parentNode fun node =>
      { node with attrData := newAttr :: node.attrData }
    used := treeMem.used + sizeofAttr target }

/-- The layer is that of the parent that was found. -/
def ParseState.atParent (state : ParseState) (parent : Option (Nat × Nat)) : ParseState :=
  { state with treeLayerOrMemLen := (parent.map Prod.fst).getD state.treeLayerOrMemLen }

def parseByteCode (target : Target) (byteAlign : Bool) (blob : Bytes) (treeStart offset : Nat)
    (state : ParseState) : Option (Int × ParseState) := do
  let termOffset ← hcsGetNodeOrAttrLength byteAlign blob (treeStart + offset)
  if termOffset ≤ 0 then pure (hdfFailure, state)
  else do
    let code ← hcsGetPrefix byteAlign blob (treeStart + offset)
    let parent := getParentNode state.treeStack (offset + termOffset.toNat) state.treeLayerOrMemLen
    let start := treeStart + offset
    if code = configNode then
      match state.treeMem with
      | none =>
        pure (termOffset,
          { state with treeLayerOrMemLen := state.treeLayerOrMemLen + sizeofNode target })
      | some treeMem => do
        let nameLength ← hcsStringLength byteAlign blob (start + hcsPrefixLength byteAlign)
        let size ← readNat blob (start + nameLength + hcsPrefixLength byteAlign) hcsDwordLength
        let created := { state.atParent parent with
          treeMem := some (createTreeNode target byteAlign treeStart offset (parent.map Prod.snd)
            treeMem) }
        match updateTreeStack created treeMem.nodes.length
            ((size + offset + termOffset.toNat) % 2 ^ 32) with
        | none => pure (hdfFailure, created)
        | some next => pure (termOffset, next)
    else if code = configAttr then
      match state.treeMem with
      | none =>
        pure (termOffset,
          { state with treeLayerOrMemLen := state.treeLayerOrMemLen + sizeofAttr target })
      | some treeMem =>
        match parent with
        | none => pure (hdfFailure, state)
        | some (layer, node) => do
          let nameLength ← hcsStringLength byteAlign blob (start + hcsPrefixLength byteAlign)
          pure (termOffset, {
            treeMem := some (addAttrInNode target byteAlign start nameLength node treeMem)
            treeStack := state.treeStack
            treeLayerOrMemLen := layer })
    else pure (hdfFailure, state)

/-- The loop of `GenerateCfgTree`. An object is at least one byte long, so as many turns as there
are bytes are enough. -/
def generateLoop (target : Target) (byteAlign : Bool) (blob : Bytes) (treeStart : Nat)
    (length : Int) : Nat → Nat → ParseState → Option (Int × ParseState)
  | 0, _, state => pure (state.treeLayerOrMemLen, state)
  | turns + 1, offset, state =>
    if (offset : Int) < length then do
      let (eachOffset, next) ← parseByteCode target byteAlign blob treeStart offset state
      if eachOffset ≤ 0 then pure (eachOffset, next)
      else
        generateLoop target byteAlign blob treeStart length turns (offset + eachOffset.toNat) next
    else pure (state.treeLayerOrMemLen, state)

/-- `GenerateCfgTree`: the result, the memory and the root, where the allocation of the stack is
granted. -/
def generateCfgTree (target : Target) (byteAlign : Bool) (blob : Bytes) (treeStart : Nat)
    (length : Int) (treeMem : Option TreeMem) (granted : Bool) :
    Option (Int × Option TreeMem × Option Nat) :=
  if !granted then pure (hdfFailure, treeMem, none)
  else do
    let (result, state) ← generateLoop target byteAlign blob treeStart length length.toNat 0
      { treeMem := treeMem, treeStack := emptyStack, treeLayerOrMemLen := 0 }
    let root := if treeMem.isSome ∧ 0 < result then
      (state.treeStack[1]?).map TreeStack.node else none
    pure (result, state.treeMem, root)

/-- Whether the allocations of the two stacks and of the memory of the tree are granted. -/
structure Grants where
  sizeStack : Bool
  treeMem : Bool
  treeStack : Bool

/-- What `HcsDecompile` leaves: whether it succeeded, the length of the memory it allocated, and the
memory and the root of the tree. -/
structure Decompiled where
  succeeded : Bool
  treeMemLength : Int
  treeMem : Option TreeMem
  root : Option Nat

def hcsDecompile (target : Target) (byteAlign : Bool) (blob : Bytes) (offset : Nat)
    (grants : Grants) : Option Decompiled := do
  let nodeLength ← hcsGetNodeLength byteAlign blob offset
  if nodeLength < 0 then pure ⟨false, 0, none, none⟩
  else do
    let (treeMemLength, _) ←
      generateCfgTree target byteAlign blob offset nodeLength none grants.sizeStack
    if treeMemLength ≤ 0 then pure ⟨false, treeMemLength, none, none⟩
    else if !grants.treeMem then pure ⟨false, treeMemLength, none, none⟩
    else do
      let (treeLayer, treeMem, root) ← generateCfgTree target byteAlign blob offset nodeLength
        (some ⟨[], 0⟩) grants.treeStack
      if treeLayer ≤ 0 then pure ⟨false, treeMemLength, treeMem, none⟩
      else pure ⟨true, treeMemLength, treeMem, root⟩

end TowerSafe.Hcs
