/-
This file proves that the parser recovers the tree that byte code stands for. A configuration is
laid out as the generator does it: nodes with the size of their content, attributes, values and
arrays, in either alignment. The first pass meets the same objects as the second one, whose stack
always has the enclosing nodes below entries that end before the next object; so every object is
added to its own parent, in order, and the memory of the tree is a list of nodes in the order of the
byte code.
-/

import TowerSafe.Hdf.HcsBlob

namespace TowerSafe.Hcs

open Library
open Sbuf (Target CString)
open Option (bind_eq_bind bind_some getD_some map_some some.inj)
open List

/-! ### Configurations -/

/-- A value that is no array; a reference names a node by the indexes of the children on the way
from the root. -/
inductive Scalar where
  | byte (value : BitVec 8)
  | word (value : BitVec 16)
  | dword (value : BitVec 32)
  | qword (value : BitVec 64)
  | string (value : CString)
  | reference (path : List Nat)

/-- A value; the elements of an array are counted in a word. -/
inductive ConfigValue where
  | scalar (value : Scalar)
  | array (elements : { elements : List Scalar // elements.length < 2 ^ 16 })

/-- What a node contains, in any order. -/
inductive Items where
  | nil
  | attr (name : CString) (value : ConfigValue) (rest : Items)
  | node (name : CString) (content rest : Items)

/-- A configuration is its root. -/
structure ConfigTree where
  name : CString
  content : Items

section

variable (byteAlign : Bool)

def pad (bytes : Bytes) : Bytes :=
  bytes ++ List.replicate (align byteAlign bytes.length - bytes.length) 0

def opcode (code : Nat) : Bytes := pad byteAlign (Bytes.ofNat 1 code)

def encodeString (value : CString) : Bytes := pad byteAlign (value.chars ++ [0])

def stringSize (value : CString) : Nat := align byteAlign (value.chars.length + 1)

/-- How long a value is in the byte code. -/
def Scalar.size : Scalar → Nat
  | .byte _ => hcsPrefixLength byteAlign + hcsByteLength byteAlign
  | .word _ => hcsPrefixLength byteAlign + hcsWordLength byteAlign
  | .dword _ => hcsPrefixLength byteAlign + hcsDwordLength
  | .qword _ => hcsPrefixLength byteAlign + hcsQwordLength
  | .string value => hcsPrefixLength byteAlign + stringSize byteAlign value
  | .reference _ => hcsPrefixLength byteAlign + hcsDwordLength

/-- How long a value is in the byte code. -/
def ConfigValue.size : ConfigValue → Nat
  | .scalar value => value.size byteAlign
  | .array elements =>
    hcsPrefixLength byteAlign + hcsWordLength byteAlign +
      (elements.val.map (Scalar.size byteAlign)).sum

/-- How long an attribute is in the byte code. -/
def attrSize (name : CString) (value : ConfigValue) : Nat :=
  hcsPrefixLength byteAlign + stringSize byteAlign name + value.size byteAlign

def headSize (name : CString) : Nat :=
  hcsPrefixLength byteAlign + stringSize byteAlign name + hcsDwordLength

/-- How long the content of a node is in the byte code. -/
def Items.size : Items → Nat
  | .nil => 0
  | .attr name value rest => attrSize byteAlign name value + rest.size
  | .node name content rest => headSize byteAlign name + content.size + rest.size

/-- Where a node lies: the index among the nodes of a content, and then on the way down. -/
def Items.nodeOffset : Items → Nat → Nat → List Nat → Option Nat
  | .nil, _, _, _ => none
  | .attr name value rest, offset, index, further =>
    rest.nodeOffset (offset + attrSize byteAlign name value) index further
  | .node name content rest, offset, index, further =>
    match index, further with
    | 0, [] => some offset
    | 0, next :: further => content.nodeOffset (offset + headSize byteAlign name) next further
    | index + 1, further =>
      rest.nodeOffset (offset + headSize byteAlign name + content.size byteAlign) index further

def ConfigTree.nodeOffset (tree : ConfigTree) : List Nat → Option Nat
  | [] => some 0
  | index :: further => tree.content.nodeOffset byteAlign (headSize byteAlign tree.name) index further

/-- What a reference to a node is in the byte code: the place of the node, with the header. -/
def ConfigTree.resolve (tree : ConfigTree) (path : List Nat) : Nat :=
  ((tree.nodeOffset byteAlign path).map (hbcHeaderLength + ·)).getD 0

end

section

variable (byteAlign : Bool) (resolve : List Nat → Nat)

/-- A value in the byte code. -/
def Scalar.encode : Scalar → Bytes
  | .byte value => opcode byteAlign configByte ++ pad byteAlign (Bytes.ofNat 1 value.toNat)
  | .word value => opcode byteAlign configWord ++ pad byteAlign (Bytes.ofNat 2 value.toNat)
  | .dword value => opcode byteAlign configDword ++ Bytes.ofNat 4 value.toNat
  | .qword value => opcode byteAlign configQword ++ Bytes.ofNat 8 value.toNat
  | .string value => opcode byteAlign configString ++ encodeString byteAlign value
  | .reference path => opcode byteAlign configReference ++ Bytes.ofNat 4 (resolve path)

def ConfigValue.encode : ConfigValue → Bytes
  | .scalar value => value.encode byteAlign resolve
  | .array elements =>
    opcode byteAlign configArray ++ (pad byteAlign (Bytes.ofNat 2 elements.val.length) ++
      (elements.val.map (Scalar.encode byteAlign resolve)).flatten)

/-- The content of a node in the byte code. -/
def Items.encode : Items → Bytes
  | .nil => []
  | .attr name value rest =>
    opcode byteAlign configAttr ++ (encodeString byteAlign name ++
      (value.encode byteAlign resolve ++ rest.encode))
  | .node name content rest =>
    opcode byteAlign configNode ++ (encodeString byteAlign name ++
      (Bytes.ofNat 4 (content.size byteAlign) ++ (content.encode ++ rest.encode)))

end

def ConfigTree.items (tree : ConfigTree) : Items := .node tree.name tree.content .nil

/-- The byte code of a configuration: the header, whose size is negative where it is aligned, and
the root. -/
def ConfigTree.blob (tree : ConfigTree) (byteAlign : Bool)
    (versionMajor versionMinor checkSum : BitVec 32) : Bytes :=
  let size : Int := tree.items.size byteAlign
  (Bytes.ofNat 4 hbcMagicNumber ++ Bytes.ofNat 4 versionMajor.toNat ++
    Bytes.ofNat 4 versionMinor.toNat ++ Bytes.ofNat 4 checkSum.toNat ++
      Bytes.ofNat 4 (BitVec.ofInt 32 (if byteAlign then -size else size)).toNat) ++
    tree.items.encode byteAlign (tree.resolve byteAlign)

/-- How many nodes are below one another. -/
def Items.depth : Items → Nat
  | .nil => 0
  | .attr _ _ rest => rest.depth
  | .node _ content rest => max (content.depth + 1) rest.depth

def ConfigTree.depth (tree : ConfigTree) : Nat := tree.items.depth

/-- How many nodes there are. -/
def Items.count : Items → Nat
  | .nil => 0
  | .attr _ _ rest => rest.count
  | .node _ content rest => content.count + 1 + rest.count

/-! ### The tree that is built -/

def At (blob : Bytes) (place : Nat) (bytes : Bytes) : Prop :=
  ∃ rest, blob.drop place = bytes ++ rest

/-- The nodes of a tree hold some content: each attribute, with its name and its value where they
are encoded, and each node, with its name, its place, its parent and what it contains, and nothing
else. Attributes are linked in front of each other, so that the last one comes first. -/
def Items.Holds (byteAlign : Bool) (resolve : List Nat → Nat) (blob : Bytes)
    (nodes : List DeviceResourceNode) (parent : Nat) :
    Items → Nat → List DeviceResourceAttr → List Nat → Prop
  | .nil, _, attrs, children => attrs = [] ∧ children = []
  | .attr name value rest, offset, attrs, children =>
    ∃ attr others, attrs = others ++ [attr] ∧ At blob attr.name (name.chars ++ [0]) ∧
      At blob attr.value (value.encode byteAlign resolve) ∧
        rest.Holds byteAlign resolve blob nodes parent (offset + attrSize byteAlign name value)
          others children
  | .node name content rest, offset, attrs, children =>
    ∃ index node others, children = index :: others ∧ nodes[index]? = some node ∧
      At blob node.name (name.chars ++ [0]) ∧ node.hashValue = hbcHeaderLength + offset ∧
        node.parent = some parent ∧
          content.Holds byteAlign resolve blob nodes index (offset + headSize byteAlign name)
            node.attrData node.child ∧
            rest.Holds byteAlign resolve blob nodes parent
              (offset + headSize byteAlign name + content.size byteAlign) attrs others

/-- The node that is reached over the children with some indexes. -/
def nodeAt (nodes : List DeviceResourceNode) : Nat → List Nat → Option Nat
  | index, [] => some index
  | index, next :: further => do
    let node ← nodes[index]?
    let child ← node.child[next]?
    nodeAt nodes child further

/-- The tree in memory is the configuration: its root holds the content, there are no other nodes,
and every node that a reference may name has the hash value that the reference has. -/
structure Isomorphic (tree : ConfigTree) (byteAlign : Bool) (blob : Bytes)
    (nodes : List DeviceResourceNode) (root : Nat) : Prop where
  holds : ∃ node, nodes[root]? = some node ∧ At blob node.name (tree.name.chars ++ [0]) ∧
    node.hashValue = hbcHeaderLength ∧ node.parent = none ∧
      tree.content.Holds byteAlign (tree.resolve byteAlign) blob nodes root
        (headSize byteAlign tree.name) node.attrData node.child
  count : nodes.length = tree.items.count
  references : ∀ path offset, tree.nodeOffset byteAlign path = some offset →
    ∃ index node, nodeAt nodes root path = some index ∧ nodes[index]? = some node ∧
      node.hashValue = tree.resolve byteAlign path

/-! ### Reading what was laid out -/

section

variable (byteAlign : Bool)
include byteAlign

theorem le_align (size : Nat) : size ≤ align byteAlign size := by
  unfold align hcsAlignSize
  split <;> omega

theorem length_pad (bytes : Bytes) :
    (pad byteAlign bytes).length = align byteAlign bytes.length := by
  have := le_align byteAlign bytes.length
  rw [pad, length_append, length_replicate]
  omega

theorem hcsPrefixLength_eq : hcsPrefixLength byteAlign = align byteAlign 1 := by
  cases byteAlign <;> rfl

theorem hcsByteLength_eq : hcsByteLength byteAlign = align byteAlign 1 := by
  cases byteAlign <;> rfl

theorem hcsWordLength_eq : hcsWordLength byteAlign = align byteAlign 2 := by
  cases byteAlign <;> rfl

theorem length_opcode (code : Nat) :
    (opcode byteAlign code).length = hcsPrefixLength byteAlign := by
  rw [opcode, length_pad, Bytes.length_ofNat, hcsPrefixLength_eq]

theorem length_encodeString (value : CString) :
    (encodeString byteAlign value).length = stringSize byteAlign value := by
  rw [encodeString, length_pad, length_append]
  rfl

end

theorem toNat_append_zeros (bytes : Bytes) (count : Nat) :
    Bytes.toNat (bytes ++ List.replicate count 0) = Bytes.toNat bytes := by
  induction bytes with
  | nil =>
    induction count with
    | zero => rfl
    | succ count hypothesis =>
      rw [nil_append] at hypothesis
      change (0 : BitVec 8).toNat + 256 * Bytes.toNat (List.replicate count 0) = 0
      rw [hypothesis]
      rfl
  | cons byte rest hypothesis =>
    rw [cons_append, Bytes.toNat, Bytes.toNat, hypothesis]

section

variable {byteAlign : Bool} {blob : Bytes} {place : Nat}

theorem At.left {first second : Bytes} (both : At blob place (first ++ second)) :
    At blob place first := by
  obtain ⟨rest, split⟩ := both
  exact ⟨second ++ rest, by rw [split, append_assoc]⟩

theorem At.right {first second : Bytes} (both : At blob place (first ++ second)) :
    At blob (place + first.length) second := by
  obtain ⟨rest, split⟩ := both
  exact ⟨rest, by rw [← drop_drop, split, append_assoc, drop_left]⟩

theorem readNat_of_at {bytes : Bytes} (lies : At blob place bytes) (positive : 0 < bytes.length) :
    readNat blob place bytes.length = some (Bytes.toNat bytes) := by
  obtain ⟨rest, split⟩ := lies
  have length := congrArg List.length split
  rw [length_drop, length_append] at length
  rw [readNat, if_pos (by omega), Bytes.slice, split, take_left]

theorem readNat_of_pad {width value : Nat}
    (lies : At blob place (pad byteAlign (Bytes.ofNat width value)))
    (positive : 0 < width) (fits : value < 256 ^ width) :
    readNat blob place (align byteAlign width) = some value := by
  have size := length_pad byteAlign (Bytes.ofNat width value)
  have atLeast := le_align byteAlign width
  rw [Bytes.length_ofNat] at size
  have number := readNat_of_at lies (by omega)
  rw [size] at number
  rw [number, pad, toNat_append_zeros, Bytes.toNat_ofNat width value fits]

theorem readNat_of_ofNat {width value : Nat} (lies : At blob place (Bytes.ofNat width value))
    (positive : 0 < width) (fits : value < 256 ^ width) :
    readNat blob place width = some value := by
  have number := readNat_of_at lies (by rw [Bytes.length_ofNat]; exact positive)
  rw [Bytes.length_ofNat] at number
  rw [number, Bytes.toNat_ofNat width value fits]

theorem hcsGetPrefix_eq (byteAlign : Bool) (blob : Bytes) (place : Nat) :
    hcsGetPrefix byteAlign blob place = readNat blob place (hcsPrefixLength byteAlign) := by
  cases byteAlign <;> rfl

theorem hcsGetPrefix_of_at {code : Nat} (lies : At blob place (opcode byteAlign code))
    (small : code < 256) : hcsGetPrefix byteAlign blob place = some code := by
  rw [hcsGetPrefix_eq, hcsPrefixLength_eq]
  exact readNat_of_pad lies (by decide) (by exact small)

theorem hcsStringLength_of_at {value : CString} (lies : At blob place (encodeString byteAlign value)) :
    hcsStringLength byteAlign blob place = some (stringSize byteAlign value) := by
  obtain ⟨rest, split⟩ := lies
  have length := congrArg List.length split
  rw [encodeString, pad, append_assoc, append_assoc, singleton_append] at split
  have chars : ((blob.drop place).takeWhile (· ≠ 0)).length = value.chars.length := by
    rw [split, Sbuf.takeWhile_terminated value.noNul]
  rw [length_drop, length_append, length_encodeString, stringSize] at length
  have atLeast := le_align byteAlign (value.chars.length + 1)
  rw [hcsStringLength, strlen, chars, if_pos (by omega)]
  rfl

theorem At.string {value : CString} (lies : At blob place (encodeString byteAlign value)) :
    At blob place (value.chars ++ [0]) :=
  lies.left

end

section

variable {byteAlign : Bool} {resolve : List Nat → Nat} {blob : Bytes} {start : Nat}

theorem Scalar.length_encode (value : Scalar) :
    (value.encode byteAlign resolve).length = value.size byteAlign := by
  cases value <;>
    simp only [encode, size, length_append, length_opcode, length_pad, Bytes.length_ofNat,
      length_encodeString, hcsByteLength_eq, hcsWordLength_eq, hcsDwordLength, hcsQwordLength]

theorem hcsGetDataTypeOffset_of_at {value : Scalar}
    (lies : At blob start (value.encode byteAlign resolve)) :
    hcsGetDataTypeOffset byteAlign blob start = some (value.size byteAlign : Int) := by
  have swapped : ∀ first second : Nat,
      some ((first + second : Nat) : Int) = some ((second + first : Nat) : Int) :=
    fun first second => congrArg (fun size : Nat => some (size : Int)) (Nat.add_comm first second)
  cases value with
  | string value =>
    have code := hcsGetPrefix_of_at lies.left (by decide)
    have length := hcsStringLength_of_at (length_opcode byteAlign configString ▸ lies.right)
    rw [hcsGetDataTypeOffset, code]
    rw [length]
    exact swapped _ _
  | _ =>
    have code := hcsGetPrefix_of_at lies.left (by decide)
    rw [hcsGetDataTypeOffset, code]
    exact swapped _ _

theorem arrayLoop_of_at {elements : List Scalar} {arrayLen : Nat}
    (lies : At blob (start + arrayLen) (elements.map (Scalar.encode byteAlign resolve)).flatten) :
    arrayLoop byteAlign blob start elements.length arrayLen =
      some ((arrayLen + (elements.map (Scalar.size byteAlign)).sum : Nat) : Int) := by
  induction elements generalizing arrayLen with
  | nil => rfl
  | cons element rest hypothesis =>
    have length := hcsGetDataTypeOffset_of_at lies.left
    have further := lies.right
    rw [Scalar.length_encode, Nat.add_assoc] at further
    have remaining := hypothesis further
    rw [length_cons, arrayLoop, length]
    change (if (element.size byteAlign : Int) < 0 then some hdfFailure
      else arrayLoop byteAlign blob start rest.length
        (arrayLen + (element.size byteAlign : Int).toNat)) = _
    rw [if_neg (Int.not_lt.mpr (Int.natCast_nonneg _)), Int.toNat_natCast, remaining,
      map_cons, sum_cons, Nat.add_assoc]

theorem hcsGetArrayLength_of_at {elements : { elements : List Scalar // elements.length < 2 ^ 16 }}
    (lies : At blob start ((ConfigValue.array elements).encode byteAlign resolve)) :
    hcsGetArrayLength byteAlign blob start =
      some ((ConfigValue.array elements).size byteAlign : Int) := by
  have behind := length_opcode byteAlign configArray ▸ lies.right
  have count : hcsSwapWordToUint16 byteAlign blob (start + hcsPrefixLength byteAlign) =
      some elements.val.length := by
    have small := elements.property
    have number := readNat_of_pad behind.left (by decide) (by omega)
    cases byteAlign with
    | false => exact number
    | true =>
      change (readNat blob _ (align true 2)).map _ = _
      rw [number, map_some, Nat.mod_eq_of_lt small]
  have further := behind.right
  rw [length_pad, Bytes.length_ofNat, Nat.add_assoc] at further
  rw [hcsGetArrayLength, count]
  exact arrayLoop_of_at further

theorem ConfigValue.length_encode (value : ConfigValue) :
    (value.encode byteAlign resolve).length = value.size byteAlign := by
  cases value with
  | scalar value => exact value.length_encode
  | array elements =>
    have lengths : (elements.val.map (Scalar.encode byteAlign resolve)).map List.length =
        elements.val.map (Scalar.size byteAlign) := by
      rw [map_map]
      exact map_congr_left fun element _ => element.length_encode
    rw [encode, size, length_append, length_append, length_opcode, length_pad,
      Bytes.length_ofNat, ← hcsWordLength_eq, length_flatten, lengths, Nat.add_assoc]

theorem attrDataLength_of_at {value : ConfigValue}
    (lies : At blob start (value.encode byteAlign resolve)) :
    attrDataLength byteAlign blob start = some (value.size byteAlign : Int) := by
  cases value with
  | array elements =>
    have code := hcsGetPrefix_of_at lies.left (by decide)
    rw [attrDataLength, code]
    exact hcsGetArrayLength_of_at lies
  | scalar value =>
    have dataLen := hcsGetDataTypeOffset_of_at lies
    cases value <;>
    · have code := hcsGetPrefix_of_at lies.left (by decide)
      rw [attrDataLength, code]
      exact dataLen

theorem hcsGetAttrLength_of_at {name : CString} {value : ConfigValue}
    (lies : At blob start (opcode byteAlign configAttr ++ (encodeString byteAlign name ++
      value.encode byteAlign resolve))) :
    hcsGetAttrLength byteAlign blob start = some (attrSize byteAlign name value : Int) := by
  have behind := length_opcode byteAlign configAttr ▸ lies.right
  have length := hcsStringLength_of_at behind.left
  have valueAt := behind.right
  rw [length_encodeString, Nat.add_assoc] at valueAt
  rw [hcsGetAttrLength, length]
  simp only [bind_eq_bind, bind_some, attrDataLength_of_at valueAt]
  rw [← Int.natCast_add, Nat.add_comm]
  rfl

end

/-! ### One object -/

section

variable {target : Target} {byteAlign : Bool} {resolve : List Nat → Nat} {blob : Bytes}
  {treeStart offset : Nat}

theorem headSize_pos (byteAlign : Bool) (name : CString) : 0 < headSize byteAlign name := by
  have := hcsPrefixLength_pos byteAlign
  unfold headSize
  omega

theorem attrSize_pos (byteAlign : Bool) (name : CString) (value : ConfigValue) :
    0 < attrSize byteAlign name value := by
  have := hcsPrefixLength_pos byteAlign
  unfold attrSize
  omega

theorem node_of_at {name : CString} {rest : Bytes} {start : Nat}
    (lies : At blob start (opcode byteAlign configNode ++ (encodeString byteAlign name ++ rest))) :
    hcsGetPrefix byteAlign blob start = some configNode ∧
      hcsStringLength byteAlign blob (start + hcsPrefixLength byteAlign) =
        some (stringSize byteAlign name) ∧
      hcsGetNodeOrAttrLength byteAlign blob start = some (headSize byteAlign name : Int) := by
  have code := hcsGetPrefix_of_at lies.left (by decide)
  have behind := length_opcode byteAlign configNode ▸ lies.right
  have length := hcsStringLength_of_at behind.left
  refine ⟨code, length, ?_⟩
  rw [hcsGetNodeOrAttrLength, code]
  rw [length, headSize, Nat.add_comm (hcsPrefixLength byteAlign)]
  rfl

theorem attr_of_at {name : CString} {value : ConfigValue} {start : Nat}
    (lies : At blob start (opcode byteAlign configAttr ++ (encodeString byteAlign name ++
      value.encode byteAlign resolve))) : hcsGetPrefix byteAlign blob start = some configAttr ∧
      hcsStringLength byteAlign blob (start + hcsPrefixLength byteAlign) =
        some (stringSize byteAlign name) ∧
      hcsGetNodeOrAttrLength byteAlign blob start = some (attrSize byteAlign name value : Int) := by
  have code := hcsGetPrefix_of_at lies.left (by decide)
  have behind := length_opcode byteAlign configAttr ▸ lies.right
  refine ⟨code, hcsStringLength_of_at behind.left, ?_⟩
  rw [hcsGetNodeOrAttrLength, code]
  exact hcsGetAttrLength_of_at lies

end

/-! ### The passes over the objects -/

/-- How much memory the nodes and attributes of a content take. -/
def Items.memory (target : Target) : Items → Nat
  | .nil => 0
  | .attr _ _ rest => sizeofAttr target + rest.memory target
  | .node _ content rest => sizeofNode target + content.memory target + rest.memory target

/-- The tree memory after the objects of a content were added to a node. -/
def Items.build (target : Target) (byteAlign : Bool) (treeStart : Nat) :
    Items → Nat → Nat → TreeMem → TreeMem
  | .nil, _, _, treeMem => treeMem
  | .attr name value rest, offset, parent, treeMem =>
    rest.build target byteAlign treeStart (offset + attrSize byteAlign name value) parent
      (addAttrInNode target byteAlign (treeStart + offset) (stringSize byteAlign name) parent treeMem)
  | .node name content rest, offset, parent, treeMem =>
    rest.build target byteAlign treeStart
      (offset + headSize byteAlign name + content.size byteAlign) parent
      (content.build target byteAlign treeStart (offset + headSize byteAlign name)
        treeMem.nodes.length
        (createTreeNode target byteAlign treeStart offset (some parent) treeMem))

section

variable {target : Target} {byteAlign : Bool} {resolve : List Nat → Nat} {blob : Bytes}
  {treeStart offset length : Nat} {state next last : ParseState}

/-- A pass that is at one offset gets to another one, whatever turns it has left. -/
def Reaches (target : Target) (byteAlign : Bool) (blob : Bytes) (treeStart length offset : Nat)
    (state : ParseState) (further : Nat) (next : ParseState) : Prop :=
  ∀ turns, length ≤ offset + turns → ∃ remaining, length ≤ further + remaining ∧
    generateLoop target byteAlign blob treeStart length turns offset state =
      generateLoop target byteAlign blob treeStart length remaining further next

theorem Reaches.refl : Reaches target byteAlign blob treeStart length offset state offset state :=
  fun turns enough => ⟨turns, enough, rfl⟩

theorem Reaches.trans {middle further : Nat}
    (first : Reaches target byteAlign blob treeStart length offset state middle next)
    (second : Reaches target byteAlign blob treeStart length middle next further last) :
    Reaches target byteAlign blob treeStart length offset state further last := by
  intro turns enough
  obtain ⟨between, still, start⟩ := first turns enough
  obtain ⟨remaining, yet, rest⟩ := second between still
  exact ⟨remaining, yet, start.trans rest⟩

theorem Reaches.of_parse {size : Nat} (inside : offset < length) (positive : 0 < size)
    (parsed : parseByteCode target byteAlign blob treeStart offset state = some ((size : Int), next)) :
    Reaches target byteAlign blob treeStart length offset state (offset + size) next := by
  intro turns enough
  cases turns with
  | zero => omega
  | succ turns =>
    refine ⟨turns, by omega, ?_⟩
    rw [generateLoop, if_pos (Int.ofNat_lt.mpr inside), parsed]
    change (if (size : Int) ≤ 0 then some ((size : Int), next) else
      generateLoop target byteAlign blob treeStart length turns (offset + (size : Int).toNat) next) = _
    rw [if_neg (by omega), Int.toNat_natCast]

theorem Reaches.result
    (reaches : Reaches target byteAlign blob treeStart length 0 state length next) :
    generateLoop target byteAlign blob treeStart length length 0 state =
      some ((next.treeLayerOrMemLen : Int), next) := by
  obtain ⟨remaining, -, equal⟩ := reaches length (by omega)
  rw [equal]
  cases remaining with
  | zero => rfl
  | succ remaining =>
    rw [generateLoop, if_neg (Int.lt_irrefl _)]
    rfl

theorem parse_size_node {name : CString} {rest : Bytes} {treeStack : List TreeStack} {memLen : Nat}
    (lies : At blob (treeStart + offset)
      (opcode byteAlign configNode ++ (encodeString byteAlign name ++ rest))) :
    parseByteCode target byteAlign blob treeStart offset ⟨none, treeStack, memLen⟩ =
      some ((headSize byteAlign name : Int), ⟨none, treeStack, memLen + sizeofNode target⟩) := by
  obtain ⟨code, -, found⟩ := node_of_at lies
  rw [parseByteCode, found]
  rw [code]
  rfl

theorem parse_size_attr {name : CString} {value : ConfigValue} {treeStack : List TreeStack}
    {memLen : Nat} (lies : At blob (treeStart + offset) (opcode byteAlign configAttr ++
      (encodeString byteAlign name ++ value.encode byteAlign resolve))) :
    parseByteCode target byteAlign blob treeStart offset ⟨none, treeStack, memLen⟩ =
      some ((attrSize byteAlign name value : Int),
        ⟨none, treeStack, memLen + sizeofAttr target⟩) := by
  obtain ⟨code, -, found⟩ := attr_of_at lies
  have positive := attrSize_pos byteAlign name value
  rw [parseByteCode, found]
  simp only [bind_eq_bind, bind_some]
  rw [if_neg (by omega), code]
  rfl

theorem parse_build_node {name : CString} {size : Nat} {rest : Bytes} {treeMem : TreeMem}
    {treeStack : List TreeStack} {layer : Nat} {parent : Option (Nat × Nat)}
    (lies : At blob (treeStart + offset) (opcode byteAlign configNode ++
      (encodeString byteAlign name ++ (Bytes.ofNat 4 size ++ rest))))
    (fits : size + offset + headSize byteAlign name < 2 ^ 32)
    (found : getParentNode treeStack (offset + headSize byteAlign name) layer = parent)
    (room : (parent.map Prod.fst).getD layer < treeStackMax - 1) :
    parseByteCode target byteAlign blob treeStart offset ⟨some treeMem, treeStack, layer⟩ =
      some ((headSize byteAlign name : Int), {
        treeMem := some (createTreeNode target byteAlign treeStart offset (parent.map Prod.snd)
          treeMem)
        treeStack := treeStack.set ((parent.map Prod.fst).getD layer + 1)
          ⟨offset + headSize byteAlign name + size, treeMem.nodes.length⟩
        treeLayerOrMemLen := (parent.map Prod.fst).getD layer + 1 }) := by
  obtain ⟨code, length, head⟩ := node_of_at lies
  have sizeAt := (length_opcode byteAlign configNode ▸ lies.right).right.left
  rw [length_encodeString, Nat.add_right_comm] at sizeAt
  have number := readNat_of_ofNat sizeAt (by decide) (by omega)
  have ended : (size + offset + headSize byteAlign name) % 2 ^ 32 =
      offset + headSize byteAlign name + size := by
    rw [Nat.mod_eq_of_lt fits]
    omega
  rw [parseByteCode, head]
  simp only [bind_eq_bind, bind_some]
  rw [code]
  simp only [bind_some, if_true, length, number, hcsDwordLength, Int.toNat_natCast, found,
    ended, updateTreeStack, ParseState.atParent, if_neg (Nat.not_le.mpr room)]
  rfl

theorem parse_build_attr {name : CString} {value : ConfigValue} {treeMem : TreeMem}
    {treeStack : List TreeStack} {layer depth parent : Nat}
    (lies : At blob (treeStart + offset) (opcode byteAlign configAttr ++
      (encodeString byteAlign name ++ value.encode byteAlign resolve)))
    (found : getParentNode treeStack (offset + attrSize byteAlign name value) layer =
      some (depth, parent)) :
    parseByteCode target byteAlign blob treeStart offset ⟨some treeMem, treeStack, layer⟩ =
      some ((attrSize byteAlign name value : Int), {
        treeMem := some (addAttrInNode target byteAlign (treeStart + offset)
          (stringSize byteAlign name) parent treeMem)
        treeStack := treeStack
        treeLayerOrMemLen := depth }) := by
  obtain ⟨code, length, size⟩ := attr_of_at lies
  have positive := attrSize_pos byteAlign name value
  have notNode : ¬configAttr = configNode := by decide
  rw [parseByteCode, size]
  simp only [bind_eq_bind, bind_some]
  rw [if_neg (by omega), code]
  simp only [bind_some, if_neg notNode, if_true, length, Int.toNat_natCast, found]
  rfl

end

/-! ### The stack -/

/-- A node is on the stack at its depth, with the end of its content, and what is above it ended. -/
structure Ready (treeStack : List TreeStack) (layer depth parent bound offset : Nat) : Prop where
  positive : 0 < depth
  below : depth ≤ layer
  entry : treeStack.getD depth ⟨0, 0⟩ = ⟨bound, parent⟩
  ended : ∀ higher, depth < higher → higher ≤ layer →
    (treeStack.getD higher ⟨0, 0⟩).offset ≤ offset
  length : treeStack.length = treeStackMax

section

variable {target : Target} {byteAlign : Bool} {resolve : List Nat → Nat} {blob : Bytes}
  {treeStart offset length : Nat} {treeStack : List TreeStack}
  {layer depth parent bound : Nat}

section

variable (ready : Ready treeStack layer depth parent bound offset)
include ready

theorem Ready.getParentNode (place : Nat) (after : offset < place) (inside : place ≤ bound) :
    getParentNode treeStack place layer = some (depth, parent) := by
  have below := ready.below
  have ended := ready.ended
  induction layer with
  | zero => exact absurd (Nat.lt_of_lt_of_le ready.positive below) (Nat.lt_irrefl 0)
  | succ layer hypothesis =>
    rw [Hcs.getParentNode]
    rcases Nat.lt_or_ge layer depth with top | lower
    · obtain rfl : depth = layer + 1 := Nat.le_antisymm below top
      rw [ready.entry, if_pos inside]
    have passed := ended (layer + 1) (Nat.lt_succ_of_le lower) (Nat.le_refl _)
    rw [if_neg (by omega)]
    have stillEnded := fun higher above (under : higher ≤ layer) =>
      ended higher above (Nat.le_succ_of_le under)
    exact hypothesis ⟨ready.positive, lower, ready.entry, stillEnded, ready.length⟩ lower stillEnded

theorem Ready.attr (further : Nat) : Ready treeStack depth depth parent bound further where
  positive := ready.positive
  below := Nat.le_refl _
  entry := ready.entry
  ended := fun _ above under => absurd (Nat.lt_of_lt_of_le above under) (Nat.lt_irrefl _)
  length := ready.length

theorem Ready.push (room : depth < treeStackMax - 1) (node ending further : Nat) :
    Ready (treeStack.set (depth + 1) ⟨ending, node⟩) (depth + 1) (depth + 1) node ending further where
  positive := Nat.succ_pos _
  below := Nat.le_refl _
  entry := getD_set_self _ (by rw [ready.length]; omega)
  ended := fun _ above under => absurd (Nat.lt_of_lt_of_le above under) (Nat.lt_irrefl _)
  length := (length_set).trans ready.length

theorem Ready.pop
    {inner : List TreeStack} {innerLayer node further : Nat}
    (content : Ready inner innerLayer (depth + 1) node further further)
    (same : ∀ lower, lower ≤ depth → inner.getD lower ⟨0, 0⟩ = treeStack.getD lower ⟨0, 0⟩) :
    Ready inner innerLayer depth parent bound further where
  positive := ready.positive
  below := Nat.le_of_succ_le content.below
  entry := (same depth (Nat.le_refl _)).trans ready.entry
  ended := by
    intro higher above under
    rcases Nat.eq_or_lt_of_le above with rfl | higherStill
    · rw [content.entry]
    · exact content.ended higher higherStill under
  length := content.length

end

theorem Items.length_encode (items : Items) :
    (items.encode byteAlign resolve).length = items.size byteAlign := by
  induction items with
  | nil => rfl
  | attr name value rest hypothesis =>
    simp only [encode, size, attrSize, length_append, length_opcode, length_encodeString,
      ConfigValue.length_encode, hypothesis, Nat.add_assoc]
  | node name content rest contentHypothesis restHypothesis =>
    simp only [encode, size, headSize, hcsDwordLength, length_append, length_opcode,
      length_encodeString, Bytes.length_ofNat, contentHypothesis, restHypothesis, Nat.add_assoc]

theorem rest_of_at {name : CString} {value : ConfigValue} {rest : Items}
    (lies : At blob (treeStart + offset) ((Items.attr name value rest).encode byteAlign resolve)) :
    At blob (treeStart + offset) (opcode byteAlign configAttr ++
      (encodeString byteAlign name ++ value.encode byteAlign resolve)) ∧
      At blob (treeStart + (offset + attrSize byteAlign name value))
        (rest.encode byteAlign resolve) := by
  rw [Items.encode, ← append_assoc (encodeString byteAlign name), ← append_assoc] at lies
  refine ⟨lies.left, ?_⟩
  have further := lies.right
  rwa [length_append, length_append, length_opcode, length_encodeString,
    ConfigValue.length_encode, ← Nat.add_assoc (hcsPrefixLength byteAlign), Nat.add_assoc] at further

theorem content_of_at {name : CString} {content rest : Items} (lies : At blob (treeStart + offset)
      ((Items.node name content rest).encode byteAlign resolve)) :
    At blob (treeStart + (offset + headSize byteAlign name)) (content.encode byteAlign resolve) ∧
      At blob (treeStart + (offset + headSize byteAlign name + content.size byteAlign))
        (rest.encode byteAlign resolve) := by
  have split : At blob (treeStart + offset) ((opcode byteAlign configNode ++
      (encodeString byteAlign name ++ Bytes.ofNat 4 (content.size byteAlign))) ++
        (content.encode byteAlign resolve ++ rest.encode byteAlign resolve)) := by
    simpa only [Items.encode, append_assoc] using lies
  have head : (opcode byteAlign configNode ++ (encodeString byteAlign name ++
      Bytes.ofNat 4 (content.size byteAlign))).length = headSize byteAlign name := by
    rw [length_append, length_append, length_opcode, length_encodeString,
      Bytes.length_ofNat, headSize, hcsDwordLength, Nat.add_assoc]
  have behind := split.right
  rw [head, Nat.add_assoc] at behind
  have last := behind.right
  rw [Items.length_encode, Nat.add_assoc] at last
  exact ⟨behind.left, last⟩

theorem reaches_build (items : Items) {treeMem : TreeMem}
    (ready : Ready treeStack layer depth parent bound offset)
    (inside : offset + items.size byteAlign ≤ bound) (shallow : depth + items.depth < treeStackMax)
    (fits : bound < 2 ^ 32) (ends : bound ≤ length)
    (lies : At blob (treeStart + offset) (items.encode byteAlign resolve)) :
    ∃ stack top, Ready stack top depth parent bound (offset + items.size byteAlign) ∧
      (∀ lower, lower ≤ depth → stack.getD lower ⟨0, 0⟩ = treeStack.getD lower ⟨0, 0⟩) ∧
        Reaches target byteAlign blob treeStart length offset ⟨some treeMem, treeStack, layer⟩
          (offset + items.size byteAlign)
          ⟨some (items.build target byteAlign treeStart offset parent treeMem), stack, top⟩ := by
  induction items generalizing offset treeStack layer depth parent bound treeMem with
  | nil => exact ⟨treeStack, layer, ready, fun _ _ => rfl, .refl⟩
  | attr name value rest hypothesis =>
    rw [Items.size] at inside ⊢
    have positive := attrSize_pos byteAlign name value
    obtain ⟨attrAt, restAt⟩ := rest_of_at lies
    have found := ready.getParentNode (offset + attrSize byteAlign name value) (by omega) (by omega)
    obtain ⟨stack, top, readyAfter, same, reaches⟩ := hypothesis
      (ready.attr (offset + attrSize byteAlign name value)) (by omega) shallow fits ends restAt
    rw [← Nat.add_assoc]
    exact ⟨stack, top, readyAfter, same,
      (Reaches.of_parse (by omega) positive (parse_build_attr attrAt found)).trans reaches⟩
  | node name content rest contentHypothesis restHypothesis =>
    rw [Items.size] at inside ⊢
    rw [Items.depth] at shallow
    have positive := headSize_pos byteAlign name
    have room : depth < treeStackMax - 1 := by omega
    have found := ready.getParentNode (offset + headSize byteAlign name) (by omega) (by omega)
    have parsed := @parse_build_node target byteAlign blob treeStart offset name
      (content.size byteAlign) _ treeMem treeStack layer _ lies (by omega) found room
    obtain ⟨contentAt, restAt⟩ := content_of_at lies
    obtain ⟨inner, innerTop, contentReady, innerSame, contentReaches⟩ := contentHypothesis
      (ready.push room treeMem.nodes.length
        (offset + headSize byteAlign name + content.size byteAlign)
        (offset + headSize byteAlign name)) (Nat.le_refl _) (by omega) (by omega) (by omega)
      contentAt
    have same : ∀ lower, lower ≤ depth →
        inner.getD lower ⟨0, 0⟩ = treeStack.getD lower ⟨0, 0⟩ := fun lower under =>
      (innerSame lower (by omega)).trans (getD_set_ne _ _ (by omega))
    obtain ⟨stack, top, readyAfter, restSame, restReaches⟩ := restHypothesis
      (ready.pop contentReady same) (by omega) (by omega) fits ends restAt
    rw [← Nat.add_assoc, ← Nat.add_assoc]
    exact ⟨stack, top, readyAfter, fun lower under => (restSame lower under).trans (same lower under),
      ((Reaches.of_parse (by omega) positive parsed).trans contentReaches).trans restReaches⟩

theorem reaches_size (items : Items) {memLen : Nat}
    (inside : offset + items.size byteAlign ≤ length)
    (lies : At blob (treeStart + offset) (items.encode byteAlign resolve)) :
    Reaches target byteAlign blob treeStart length offset ⟨none, treeStack, memLen⟩
      (offset + items.size byteAlign) ⟨none, treeStack, memLen + items.memory target⟩ := by
  induction items generalizing offset memLen with
  | nil => exact .refl
  | attr name value rest hypothesis =>
    rw [Items.size] at inside ⊢
    have positive := attrSize_pos byteAlign name value
    obtain ⟨attrAt, restAt⟩ := rest_of_at lies
    rw [Items.memory, ← Nat.add_assoc, ← Nat.add_assoc]
    exact (Reaches.of_parse (by omega) positive (parse_size_attr attrAt)).trans
      (hypothesis (by omega) restAt)
  | node name content rest contentHypothesis restHypothesis =>
    rw [Items.size] at inside ⊢
    have positive := headSize_pos byteAlign name
    obtain ⟨contentAt, restAt⟩ := content_of_at lies
    rw [Items.memory, ← Nat.add_assoc, ← Nat.add_assoc, ← Nat.add_assoc, ← Nat.add_assoc]
    exact ((Reaches.of_parse (by omega) positive (parse_size_node lies)).trans
      (contentHypothesis (by omega) contentAt)).trans (restHypothesis (by omega) restAt)

end

/-! ### The memory of the tree -/

section

variable {target : Target} {byteAlign : Bool} {treeStart : Nat}

/-- The attributes of a content, the last one first. -/
def Items.attrs (byteAlign : Bool) (treeStart : Nat) : Items → Nat → List DeviceResourceAttr
  | .nil, _ => []
  | .attr name value rest, offset =>
    rest.attrs byteAlign treeStart (offset + attrSize byteAlign name value) ++ [{
      name := treeStart + offset + hcsPrefixLength byteAlign
      value := treeStart + offset + hcsPrefixLength byteAlign + stringSize byteAlign name }]
  | .node name content rest, offset =>
    rest.attrs byteAlign treeStart (offset + headSize byteAlign name + content.size byteAlign)

/-- The children of a content, whose first node gets an index. -/
def Items.children : Items → Nat → List Nat
  | .nil, _ => []
  | .attr _ _ rest, first => rest.children first
  | .node _ content rest, first => first :: rest.children (first + 1 + content.count)

/-- The nodes of a content in the order of the byte code, whose first one gets an index. -/
def Items.nodes (byteAlign : Bool) (treeStart : Nat) :
    Items → Nat → Nat → Nat → List DeviceResourceNode
  | .nil, _, _, _ => []
  | .attr name value rest, offset, parent, first =>
    rest.nodes byteAlign treeStart (offset + attrSize byteAlign name value) parent first
  | .node name content rest, offset, parent, first =>
    {
      name := treeStart + offset + hcsPrefixLength byteAlign
      hashValue := offset + hbcHeaderLength
      attrData := content.attrs byteAlign treeStart (offset + headSize byteAlign name)
      parent := some parent
      child := content.children (first + 1) } ::
    (content.nodes byteAlign treeStart (offset + headSize byteAlign name) first (first + 1) ++
      rest.nodes byteAlign treeStart
        (offset + headSize byteAlign name + content.size byteAlign) parent
        (first + 1 + content.count))

theorem Items.length_nodes (items : Items) (offset parent first : Nat) :
    (items.nodes byteAlign treeStart offset parent first).length = items.count := by
  induction items generalizing offset parent first with
  | nil => rfl
  | attr name value rest hypothesis => exact hypothesis _ _ _
  | node name content rest contentHypothesis restHypothesis =>
    rw [nodes, length_cons, length_append, contentHypothesis, restHypothesis, count]
    omega

/-- A node gets the attributes and the children of some content. -/
def extend (attrs : List DeviceResourceAttr) (children : List Nat) (node : DeviceResourceNode) :
    DeviceResourceNode :=
  { node with attrData := attrs ++ node.attrData, child := node.child ++ children }

theorem extend_extend (attrs more : List DeviceResourceAttr) (children others : List Nat) :
    extend more others ∘ extend attrs children = extend (more ++ attrs) (children ++ others) := by
  funext node
  rw [Function.comp_apply, extend, extend, extend, append_assoc, append_assoc]

theorem extend_nil : extend [] [] = id := by
  funext node
  rw [extend, append_nil]
  rfl

theorem modify_append_left {nodes more : List DeviceResourceNode} {index : Nat}
    (inside : index < nodes.length) (change : DeviceResourceNode → DeviceResourceNode) :
    (nodes ++ more).modify index change = nodes.modify index change ++ more := by
  induction nodes generalizing index with
  | nil => exact absurd inside (Nat.not_lt_zero _)
  | cons node rest hypothesis =>
    cases index with
    | zero => rfl
    | succ index =>
      rw [cons_append, modify_succ_cons, modify_succ_cons,
        hypothesis (Nat.lt_of_succ_lt_succ inside), cons_append]

theorem modify_last (nodes : List DeviceResourceNode) (node : DeviceResourceNode)
    (change : DeviceResourceNode → DeviceResourceNode) :
    (nodes ++ [node]).modify nodes.length change = nodes ++ [change node] := by
  induction nodes with
  | nil => rfl
  | cons head rest hypothesis =>
    rw [cons_append, length_cons, modify_succ_cons, hypothesis, cons_append]

theorem addAttrInNode_nodes (start nameLength parent : Nat) (treeMem : TreeMem) :
    (addAttrInNode target byteAlign start nameLength parent treeMem).nodes =
      treeMem.nodes.modify parent (extend [{
        name := start + hcsPrefixLength byteAlign
        value := start + hcsPrefixLength byteAlign + nameLength }] []) := by
  refine congrArg (treeMem.nodes.modify parent) (funext fun node => ?_)
  rw [extend, append_nil]
  rfl

theorem createTreeNode_nodes (offset parent : Nat) (treeMem : TreeMem) :
    (createTreeNode target byteAlign treeStart offset (some parent) treeMem).nodes =
      treeMem.nodes.modify parent (extend [] [treeMem.nodes.length]) ++ [{
        name := treeStart + offset + hcsPrefixLength byteAlign
        hashValue := offset + hbcHeaderLength
        attrData := []
        parent := some parent
        child := [] }] := rfl

theorem Items.build_nodes (items : Items) {offset parent : Nat} {treeMem : TreeMem}
    (inside : parent < treeMem.nodes.length) :
    (items.build target byteAlign treeStart offset parent treeMem).nodes =
      treeMem.nodes.modify parent (extend (items.attrs byteAlign treeStart offset)
        (items.children treeMem.nodes.length)) ++
        items.nodes byteAlign treeStart offset parent treeMem.nodes.length := by
  induction items generalizing offset parent treeMem with
  | nil =>
    rw [build, attrs, children, extend_nil, modify_id, nodes, append_nil]
  | attr name value rest hypothesis =>
    have added := @addAttrInNode_nodes target byteAlign (treeStart + offset)
      (stringSize byteAlign name) parent treeMem
    have length := congrArg List.length added
    rw [length_modify] at length
    rw [build, hypothesis (length ▸ inside), length, added, modify_modify_eq, extend_extend]
    rfl
  | node name content rest contentHypothesis restHypothesis =>
    have created := @createTreeNode_nodes target byteAlign treeStart offset parent treeMem
    rw [build]
    generalize createTreeNode target byteAlign treeStart offset (some parent) treeMem = next
      at created ⊢
    have front : (treeMem.nodes.modify parent (extend [] [treeMem.nodes.length])).length =
        treeMem.nodes.length := length_modify _ _ _
    have length : next.nodes.length = treeMem.nodes.length + 1 := by
      rw [created, length_append, front]
      rfl
    have filled := @contentHypothesis (offset + headSize byteAlign name) treeMem.nodes.length next
      (by omega)
    have last := modify_last (treeMem.nodes.modify parent (extend [] [treeMem.nodes.length]))
    rw [front] at last
    rw [length, created, last, append_assoc] at filled
    have total := congrArg List.length filled
    rw [length_append, front, length_append, Items.length_nodes] at total
    have whole := @restHypothesis (offset + headSize byteAlign name + content.size byteAlign) parent
      (content.build target byteAlign treeStart (offset + headSize byteAlign name)
        treeMem.nodes.length next) (by omega)
    have count : treeMem.nodes.length + ([extend
        (content.attrs byteAlign treeStart (offset + headSize byteAlign name))
        (content.children (treeMem.nodes.length + 1))
        { name := treeStart + offset + hcsPrefixLength byteAlign
          hashValue := offset + hbcHeaderLength
          attrData := []
          parent := some parent
          child := [] }].length + content.count) = treeMem.nodes.length + 1 + content.count := by
      rw [length_singleton, Nat.add_assoc]
    rw [whole, total, count, filled, modify_append_left (by omega), modify_modify_eq,
      extend_extend, append_assoc]
    simp only [attrs, children, nodes, extend, append_nil, nil_append, cons_append]

end

/-! ### The tree that is recovered -/

section

variable {byteAlign : Bool} {resolve : List Nat → Nat} {blob : Bytes} {treeStart : Nat}

theorem At.name {name : CString} {code offset : Nat} {rest : Bytes}
    (lies : At blob (treeStart + offset)
      (opcode byteAlign code ++ (encodeString byteAlign name ++ rest))) :
    At blob (treeStart + offset + hcsPrefixLength byteAlign) (name.chars ++ [0]) :=
  (length_opcode byteAlign code ▸ lies.right).left.string

theorem Items.holds (items : Items) {offset parent : Nat} {before after : List DeviceResourceNode}
    (lies : At blob (treeStart + offset) (items.encode byteAlign resolve)) :
    items.Holds byteAlign resolve blob
      (before ++ (items.nodes byteAlign treeStart offset parent before.length ++ after)) parent offset
      (items.attrs byteAlign treeStart offset) (items.children before.length) := by
  induction items generalizing offset parent before after with
  | nil => exact ⟨rfl, rfl⟩
  | attr name value rest hypothesis =>
    obtain ⟨attrAt, restAt⟩ := rest_of_at lies
    have valueAt := (length_opcode byteAlign configAttr ▸ attrAt.right).right
    rw [length_encodeString] at valueAt
    exact ⟨_, _, rfl, attrAt.name, valueAt, hypothesis restAt⟩
  | node name content rest contentHypothesis restHypothesis =>
    obtain ⟨contentAt, restAt⟩ := content_of_at lies
    let node : DeviceResourceNode := {
      name := treeStart + offset + hcsPrefixLength byteAlign
      hashValue := offset + hbcHeaderLength
      attrData := content.attrs byteAlign treeStart (offset + headSize byteAlign name)
      parent := some parent
      child := content.children (before.length + 1) }
    have one : (before ++ [node]).length = before.length + 1 := length_append
    have all : (before ++ (node :: content.nodes byteAlign treeStart
        (offset + headSize byteAlign name) before.length (before.length + 1))).length =
          before.length + 1 + content.count := by
      rw [length_append, length_cons, Items.length_nodes]
      omega
    have inner := @contentHypothesis (offset + headSize byteAlign name) before.length
      (before ++ [node]) (rest.nodes byteAlign treeStart
        (offset + headSize byteAlign name + content.size byteAlign) parent
        (before.length + 1 + content.count) ++ after) contentAt
    have outer := @restHypothesis (offset + headSize byteAlign name + content.size byteAlign) parent
      (before ++ (node :: content.nodes byteAlign treeStart (offset + headSize byteAlign name)
        before.length (before.length + 1))) after restAt
    rw [one] at inner
    rw [all] at outer
    simp only [append_assoc, cons_append, nil_append] at inner outer
    simp only [nodes, append_assoc, cons_append]
    refine ⟨before.length, node, _, rfl, ?_, At.name lies, Nat.add_comm _ _, rfl, inner, outer⟩
    rw [List.getElem?_append_right (Nat.le_refl _), Nat.sub_self]
    rfl

theorem Items.Holds.nodeAt {nodes : List DeviceResourceNode} {parent : Nat} {items : Items}
    {offset : Nat} {attrs : List DeviceResourceAttr} {children : List Nat}
    (holds : items.Holds byteAlign resolve blob nodes parent offset attrs children)
    {index : Nat} {further : List Nat} {place : Nat}
    (leads : items.nodeOffset byteAlign offset index further = some place) :
    ∃ child, children[index]? = some child ∧ ∃ found node,
      nodeAt nodes child further = some found ∧ nodes[found]? = some node ∧
        node.hashValue = hbcHeaderLength + place := by
  induction items generalizing parent offset attrs children index further with
  | nil => cases leads
  | attr name value rest hypothesis =>
    obtain ⟨attr, others, -, -, -, restHolds⟩ := holds
    exact hypothesis restHolds leads
  | node name content rest contentHypothesis restHypothesis =>
    obtain ⟨first, node, others, rfl, present, -, hash, -, contentHolds, restHolds⟩ := holds
    cases index with
    | zero =>
      refine ⟨first, rfl, ?_⟩
      cases further with
      | nil =>
        obtain rfl : offset = place := some.inj leads
        exact ⟨first, node, rfl, present, hash⟩
      | cons next further =>
        obtain ⟨child, reached, found, last, way, there, value⟩ :=
          contentHypothesis contentHolds leads
        refine ⟨found, last, ?_, there, value⟩
        rw [Hcs.nodeAt, present]
        change (node.child[next]?).bind _ = _
        rw [reached]
        exact way
    | succ index =>
      obtain ⟨child, reached, rest⟩ := restHypothesis restHolds leads
      exact ⟨child, reached, rest⟩

end

section

variable (target : Target) (tree : ConfigTree) (byteAlign : Bool)
  (versionMajor versionMinor checkSum : BitVec 32)

theorem ConfigTree.blob_at :
    At (tree.blob byteAlign versionMajor versionMinor checkSum) (hbcHeaderLength + 0)
      (tree.items.encode byteAlign (tree.resolve byteAlign)) := by
  refine ⟨[], ?_⟩
  rw [append_nil]
  refine drop_left' ?_
  simp only [length_append, Bytes.length_ofNat]
  rfl

theorem ConfigTree.length_blob : (tree.blob byteAlign versionMajor versionMinor checkSum).length =
      hbcHeaderLength + tree.items.size byteAlign := by
  rw [blob, length_append, Items.length_encode]
  simp only [length_append, Bytes.length_ofNat]
  rfl

theorem toInt32_of_small {size : Nat} (small : size < 2 ^ 31) : toInt32 size = size := by
  rw [toInt32, BitVec.ofInt_natCast, BitVec.toInt_eq_toNat_of_lt] <;>
    rw [BitVec.toNat_ofNat, Nat.mod_eq_of_lt (by omega)]
  omega

theorem ConfigTree.size_items :
    tree.items.size byteAlign = headSize byteAlign tree.name + tree.content.size byteAlign := rfl

variable {blob : Bytes}

theorem hcsGetNodeLength_of_at (lies : At blob (hbcHeaderLength + 0)
      (tree.items.encode byteAlign (tree.resolve byteAlign)))
    (small : tree.items.size byteAlign < 2 ^ 31) :
    hcsGetNodeLength byteAlign blob hbcHeaderLength = some (tree.items.size byteAlign : Int) := by
  obtain ⟨code, length, head⟩ := node_of_at lies
  have sizeAt := (length_opcode byteAlign configNode ▸ lies.right).right.left
  rw [ConfigTree.size_items] at small
  have number := readNat_of_ofNat sizeAt (by decide) (by omega)
  rw [length_encodeString] at number
  rw [Nat.add_zero] at length head number
  rw [hcsGetNodeLength, head]
  simp only [bind_eq_bind, bind_some]
  rw [length]
  simp only [bind_some, hcsDwordLength, number, ← Int.natCast_add, toInt32_of_small small,
    ConfigTree.size_items]
  rfl

theorem size_of_at {stack : List TreeStack} (lies : At blob (hbcHeaderLength + 0)
      (tree.items.encode byteAlign (tree.resolve byteAlign))) :
    generateLoop target byteAlign blob hbcHeaderLength (tree.items.size byteAlign : Nat)
      (tree.items.size byteAlign) 0 ⟨none, stack, 0⟩ =
        some ((tree.items.memory target : Int), ⟨none, stack, tree.items.memory target⟩) := by
  have reaches := @reaches_size target byteAlign (tree.resolve byteAlign) blob hbcHeaderLength 0
    (tree.items.size byteAlign) stack tree.items 0 (Nat.le_of_eq (Nat.zero_add _)) lies
  rw [Nat.zero_add, Nat.zero_add] at reaches
  exact reaches.result

theorem build_of_at (shallow : tree.depth < treeStackMax)
    (small : tree.items.size byteAlign < 2 ^ 32)
    (lies : At blob (hbcHeaderLength + 0)
      (tree.items.encode byteAlign (tree.resolve byteAlign))) :
    ∃ (stack : List TreeStack) (layer : Nat), 0 < layer ∧ (stack[1]?).map TreeStack.node = some 0 ∧
      generateLoop target byteAlign blob hbcHeaderLength (tree.items.size byteAlign : Nat)
        (tree.items.size byteAlign) 0 ⟨some ⟨[], 0⟩, emptyStack, 0⟩ =
          some ((layer : Int), ⟨some (tree.content.build target byteAlign hbcHeaderLength
            (headSize byteAlign tree.name) 0
            (createTreeNode target byteAlign hbcHeaderLength 0 none ⟨[], 0⟩)), stack, layer⟩) := by
  obtain ⟨contentAt, -⟩ := content_of_at lies
  have positive := headSize_pos byteAlign tree.name
  rw [ConfigTree.size_items] at small
  rw [ConfigTree.depth, ConfigTree.items, Items.depth] at shallow
  rw [Nat.zero_add] at contentAt
  have parsed := @parse_build_node target byteAlign blob hbcHeaderLength 0 tree.name
    (tree.content.size byteAlign) _ ⟨[], 0⟩ emptyStack 0 none lies (by omega) rfl (by decide)
  have first : Ready (emptyStack.set 1
      ⟨headSize byteAlign tree.name + tree.content.size byteAlign, 0⟩) 1 1 0
      (headSize byteAlign tree.name + tree.content.size byteAlign) (headSize byteAlign tree.name) :=
    { positive := Nat.one_pos
      below := Nat.le_refl _
      entry := getD_set_self _ (by rw [emptyStack, length_replicate]; decide)
      ended := fun _ above under => absurd (Nat.lt_of_lt_of_le above under) (Nat.lt_irrefl _)
      length := (length_set).trans length_replicate }
  obtain ⟨stack, layer, ready, same, reaches⟩ := @reaches_build target byteAlign
    (tree.resolve byteAlign) blob hbcHeaderLength (headSize byteAlign tree.name)
    (tree.items.size byteAlign) _ 1 1 0 _ tree.content
    (createTreeNode target byteAlign hbcHeaderLength 0 none ⟨[], 0⟩) first (Nat.le_refl _)
    (by omega) small (Nat.le_of_eq (ConfigTree.size_items tree byteAlign).symm) contentAt
  have started := @Reaches.of_parse target byteAlign blob hbcHeaderLength 0
    (tree.items.size byteAlign) _ _ _ (by rw [ConfigTree.size_items]; omega) positive parsed
  rw [Nat.zero_add] at started
  have whole := started.trans reaches
  refine ⟨stack, layer, Nat.lt_of_lt_of_le Nat.one_pos ready.below, ?_, whole.result⟩
  have entry := ready.entry
  have inside : 1 < stack.length := by
    rw [ready.length]
    decide
  rw [getD_eq_getElem?_getD, List.getElem?_eq_getElem inside, getD_some] at entry
  rw [List.getElem?_eq_getElem inside, map_some, entry]

/-- The nodes of a configuration in the order of the byte code. -/
def ConfigTree.nodes : List DeviceResourceNode := {
  name := hbcHeaderLength + 0 + hcsPrefixLength byteAlign
  hashValue := 0 + hbcHeaderLength
  attrData := tree.content.attrs byteAlign hbcHeaderLength (headSize byteAlign tree.name)
  parent := none
  child := tree.content.children 1 } ::
    tree.content.nodes byteAlign hbcHeaderLength (headSize byteAlign tree.name) 0 1

theorem ConfigTree.build_nodes :
    (tree.content.build target byteAlign hbcHeaderLength (headSize byteAlign tree.name) 0
      (createTreeNode target byteAlign hbcHeaderLength 0 none ⟨[], 0⟩)).nodes =
        tree.nodes byteAlign := by
  rw [Items.build_nodes tree.content Nat.one_pos, nodes]
  conv_rhs => rw [← append_nil (tree.content.attrs _ _ _)]
  rfl

theorem isomorphic_of_at (lies : At blob (hbcHeaderLength + 0)
      (tree.items.encode byteAlign (tree.resolve byteAlign))) :
    Isomorphic tree byteAlign blob (tree.nodes byteAlign) 0 := by
  obtain ⟨contentAt, -⟩ := content_of_at lies
  rw [Nat.zero_add] at contentAt
  have contentHolds := @Items.holds byteAlign (tree.resolve byteAlign) blob hbcHeaderLength
    tree.content (headSize byteAlign tree.name) 0 [(tree.nodes byteAlign).head (cons_ne_nil _ _)]
    [] contentAt
  rw [append_nil] at contentHolds
  refine ⟨⟨_, rfl, At.name lies, rfl, rfl, contentHolds⟩, ?_, ?_⟩
  · rw [ConfigTree.nodes, length_cons, Items.length_nodes]
    rfl
  · intro path offset leads
    rw [ConfigTree.resolve, leads]
    cases path with
    | nil =>
      obtain rfl : 0 = offset := some.inj leads
      exact ⟨0, _, rfl, rfl, rfl⟩
    | cons index further =>
      obtain ⟨child, reached, found, node, way, there, hash⟩ := contentHolds.nodeAt leads
      refine ⟨found, node, ?_, there, hash⟩
      change ((tree.content.children 1)[index]?).bind _ = _
      rw [show (tree.content.children 1)[index]? = some child from reached]
      exact way

/-- A configuration that is laid out as byte code is decompiled wherever memory is granted, and the
nodes are those of the configuration. -/
theorem hcsDecompile_of_at (shallow : tree.depth < treeStackMax)
    (fits : tree.items.size byteAlign < 2 ^ 31)
    (lies : At blob (hbcHeaderLength + 0) (tree.items.encode byteAlign (tree.resolve byteAlign)))
    (grants : Grants) :
    ∃ result, hcsDecompile target byteAlign blob hbcHeaderLength grants = some result ∧
      result.succeeded = (grants.sizeStack && grants.treeMem && grants.treeStack) ∧
        (result.succeeded = true → ∃ treeMem, result.treeMem = some treeMem ∧
          result.root = some 0 ∧ treeMem.nodes = tree.nodes byteAlign) := by
  have nodeLength := hcsGetNodeLength_of_at tree byteAlign lies (by omega)
  have sized := @size_of_at target tree byteAlign blob emptyStack lies
  obtain ⟨stack, layer, positive, root, built⟩ := build_of_at target tree byteAlign shallow (by omega)
    lies
  have memory : 0 < tree.items.memory target := by
    rw [ConfigTree.items, Items.memory]
    cases target <;> rw [sizeofNode] <;> omega
  obtain ⟨sizeStack, treeMem, treeStack⟩ := grants
  have notNegative : ¬((tree.items.size byteAlign : Nat) : Int) < 0 :=
    Int.not_lt.mpr (Int.natCast_nonneg _)
  have firstPass : generateCfgTree target byteAlign blob hbcHeaderLength
      ((tree.items.size byteAlign : Nat) : Int) none true =
        some ((tree.items.memory target : Int), none, none) := by
    rw [generateCfgTree, Int.toNat_natCast, sized]
    rfl
  have secondPass : generateCfgTree target byteAlign blob hbcHeaderLength
      ((tree.items.size byteAlign : Nat) : Int) (some ⟨[], 0⟩) true =
        some ((layer : Int), some (tree.content.build target byteAlign hbcHeaderLength
          (headSize byteAlign tree.name) 0
          (createTreeNode target byteAlign hbcHeaderLength 0 none ⟨[], 0⟩)), some 0) := by
    rw [generateCfgTree, Int.toNat_natCast, built]
    change some ((layer : Int), _, if true = true ∧ 0 < (layer : Int) then _ else none) = _
    rw [if_pos ⟨rfl, Int.natCast_pos.mpr positive⟩, root]
  rw [hcsDecompile, nodeLength]
  simp only [bind_eq_bind, bind_some]
  rw [if_neg notNegative]
  cases sizeStack with
  | false => exact ⟨_, rfl, rfl, fun success => absurd success Bool.false_ne_true⟩
  | true =>
    rw [firstPass]
    simp only [bind_some]
    rw [if_neg (by omega)]
    cases treeMem with
    | false => exact ⟨_, rfl, rfl, fun success => absurd success Bool.false_ne_true⟩
    | true =>
      rw [if_neg (by decide)]
      cases treeStack with
      | false => exact ⟨_, rfl, rfl, fun success => absurd success Bool.false_ne_true⟩
      | true =>
        rw [secondPass]
        simp only [bind_some]
        rw [if_neg (by omega)]
        exact ⟨_, rfl, rfl, fun _ => ⟨_, rfl, rfl, tree.build_nodes target byteAlign⟩⟩

end

/-- A configuration that is laid out as byte code, of no more than the greatest length and with its
nodes below one another in less than the levels of the stack, is decompiled wherever memory is
granted, and the tree is the configuration. -/
theorem hcsDecompile_blob (target : Target) (tree : ConfigTree) (byteAlign : Bool)
    (versionMajor versionMinor checkSum : BitVec 32) (grants : Grants)
    (fits : (tree.blob byteAlign versionMajor versionMinor checkSum).length ≤ hbcBlobMaxLength)
    (shallow : tree.depth < treeStackMax) : ∃ result, hcsDecompile target byteAlign
        (tree.blob byteAlign versionMajor versionMinor checkSum) hbcHeaderLength grants = some result ∧
      result.succeeded = (grants.sizeStack && grants.treeMem && grants.treeStack) ∧
        (result.succeeded = true → ∃ treeMem root, result.treeMem = some treeMem ∧
          result.root = some root ∧ Isomorphic tree byteAlign
            (tree.blob byteAlign versionMajor versionMinor checkSum) treeMem.nodes root) := by
  have lies := tree.blob_at byteAlign versionMajor versionMinor checkSum
  rw [ConfigTree.length_blob, hbcBlobMaxLength] at fits
  generalize tree.blob byteAlign versionMajor versionMinor checkSum = blob at lies ⊢
  obtain ⟨result, decompiled, succeeded, built⟩ :=
    hcsDecompile_of_at target tree byteAlign shallow (by omega) lies grants
  refine ⟨result, decompiled, succeeded, fun success => ?_⟩
  obtain ⟨treeMem, memory, root, nodes⟩ := built success
  exact ⟨treeMem, 0, memory, root, nodes ▸ isomorphic_of_at tree byteAlign lies⟩

/-! ### A sample -/

/-- A root with a node without content between two attributes, of which one names the node. -/
def sampleTree : ConfigTree where
  name := ⟨[0x72, 0x6f, 0x6f, 0x74], by decide⟩
  content := .attr ⟨[0x61], by decide⟩ (.array ⟨[.byte 5, .string ⟨[0x78], by decide⟩], by decide⟩)
    (.node ⟨[0x6e], by decide⟩ .nil
      (.attr ⟨[0x72], by decide⟩ (.scalar (.reference [0])) .nil))

theorem hcsDecompile_blob_sample :
    ∃ result, hcsDecompile .lp64 true (sampleTree.blob true 0 7 0) hbcHeaderLength
        ⟨true, true, true⟩ = some result ∧ result.succeeded = true ∧
      (result.succeeded = true → ∃ treeMem root, result.treeMem = some treeMem ∧
        result.root = some root ∧
          Isomorphic sampleTree true (sampleTree.blob true 0 7 0) treeMem.nodes root) :=
  hcsDecompile_blob .lp64 sampleTree true 0 7 0 ⟨true, true, true⟩ (by decide) (by decide)

end TowerSafe.Hcs
