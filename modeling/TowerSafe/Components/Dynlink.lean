/-
This file embeds the dynamic loader of LiteOS-M (`los_dynlink.c`) on ARM: the checks of the headers,
the size it reserves, the loading of the segments and the relocations. It says exactly when every
byte written stays in the reserved interval. The file decides all the addresses: a segment is loaded
at its own address above the base, though the reserved size is the distance from the lowest segment;
the number of bytes read is not compared with it, and the offset of a relocation is not looked at.

A read gives as many of the bytes it asks for as the file still has. A loop over memory that has not
ended after as many steps as there are addresses never ends.
-/

import TowerSafe.Library.ByteMemory
import TowerSafe.Library.Transition
import TowerSafe.Memory.Client
import Mathlib.Data.BitVec

namespace TowerSafe.Dynlink

open TowerSafe.Library Option

/-! ### Files and headers -/

/-- `UINTPTR` and `UINT32`. -/
abbrev Word := BitVec 32

abbrev Memory := ByteMemory 32

/-- The bytes of a file. -/
abbrev File := List (BitVec 8)

def halfAt (bytes : File) (offset : Nat) : BitVec 16 :=
  bytes.getD (offset + 1) 0 ++ bytes.getD offset 0

def wordAt (bytes : File) (offset : Nat) : Word :=
  bytes.getD (offset + 3) 0 ++ bytes.getD (offset + 2) 0 ++ bytes.getD (offset + 1) 0 ++
    bytes.getD offset 0

/-- The fields of `LD_ELF_EHDR` that are read. -/
structure LdElfEhdr where
  eIdent : File
  eType : BitVec 16
  eMachine : BitVec 16
  ePhoff : Word
  ePhentsize : BitVec 16
  ePhnum : BitVec 16
  deriving DecidableEq

/-- The fields of `LD_ELF_PHDR` that are read. -/
structure LdElfPhdr where
  pType : Word
  pOffset : Word
  pVaddr : Word
  pFilesz : Word
  pMemsz : Word
  pFlags : Word
  pAlign : Word
  deriving DecidableEq

def LdElfEhdr.ofBytes (bytes : File) : LdElfEhdr :=
  ⟨bytes.take 4, halfAt bytes 16, halfAt bytes 18, wordAt bytes 28, halfAt bytes 42,
    halfAt bytes 44⟩

def LdElfPhdr.ofBytes (bytes : File) : LdElfPhdr :=
  ⟨wordAt bytes 0, wordAt bytes 4, wordAt bytes 8, wordAt bytes 16, wordAt bytes 20,
    wordAt bytes 24, wordAt bytes 28⟩

def sizeofEhdr : Word := 52

def sizeofPhdr : Word := 32

def fileLengthMax : Nat := 0x40000

def phdrNumMax : BitVec 16 := 128

def ldElfmag : File := [0x7f, 0x45, 0x4c, 0x46]

def etDyn : BitVec 16 := 3

def emArm : BitVec 16 := 40

def ptLoad : Word := 1

def ptDynamic : Word := 2

def ptTls : Word := 7

def pfW : Word := 2

def pfR : Word := 4

/-- `OsReadELFInfo`: the bytes that come into the buffer, none when the call fails. -/
def osReadELFInfo (file : File) (readSize offset : Word) : Option File :=
  if readSize = 0 then some []
  else
    let bytes := (file.drop offset.toNat).take readSize.toNat
    if bytes = [] then none else some bytes

def osVerifyEhdr (ehdr : LdElfEhdr) (fileLen : Word) : Bool :=
  if ehdr.eIdent ≠ ldElfmag then false
  else if ehdr.eType ≠ etDyn then false
  else if ehdr.eMachine ≠ emArm then false
  else if ehdr.ePhnum > phdrNumMax then false
  else if ehdr.ePhoff > fileLen then false
  else true

def osReadEhdr (file : File) (fileLen : Word) : Option LdElfEhdr :=
  match osReadELFInfo file sizeofEhdr 0 with
  | none => none
  | some bytes =>
      let ehdr := LdElfEhdr.ofBytes bytes
      if osVerifyEhdr ehdr fileLen then some ehdr else none

def osReadPhdrs (file : File) (fileLen : Word) (ehdr : LdElfEhdr) : Option (List LdElfPhdr) :=
  if ehdr.ePhnum = 0 ∨ ehdr.ePhentsize.setWidth 32 ≠ sizeofPhdr then none
  else
    let size := sizeofPhdr * ehdr.ePhnum.setWidth 32
    if ehdr.ePhoff + size > fileLen then none
    else
      match osReadELFInfo file size ehdr.ePhoff with
      | none => none
      | some bytes =>
          some ((List.range ehdr.ePhnum.toNat).map fun index =>
            LdElfPhdr.ofBytes (bytes.drop (sizeofPhdr.toNat * index)))

/-- `OsLoadInit` of a file that can be opened, when its buffers are allocated: the program
headers. -/
def osLoadInit (file : File) : Option (List LdElfPhdr) :=
  if file.length > fileLengthMax then none
  else
    let fileLen := BitVec.ofNat 32 file.length
    match osReadEhdr file fileLen with
    | none => none
    | some ehdr => osReadPhdrs file fileLen ehdr

/-! ### The reserved space -/

def elfAlignUp (address boundary : Word) : Word := (address + (boundary - 1)) &&& ~~~(boundary - 1)

def elfAlignDown (address boundary : Word) : Word := address &&& ~~~(boundary - 1)

def elfAlignOffset (address boundary : Word) : Word := address &&& (boundary - 1)

/-- The variables of the loop of `OsReserveSpace`. -/
structure Extent where
  boundary : Word
  addrMin : Word
  addrMax : Word
  offStart : Word
  deriving DecidableEq

/-- A turn of the loop for a `PT_LOAD` header. -/
def Extent.add (extent : Extent) (phdr : LdElfPhdr) : Extent where
  boundary := if extent.boundary = 0 then phdr.pAlign else extent.boundary
  addrMin := if phdr.pVaddr < extent.addrMin then phdr.pVaddr else extent.addrMin
  addrMax := if phdr.pVaddr + phdr.pMemsz > extent.addrMax then phdr.pVaddr + phdr.pMemsz
    else extent.addrMax
  offStart := if phdr.pVaddr < extent.addrMin then phdr.pOffset else extent.offStart

/-- The loop of `OsReserveSpace`. -/
def osReserveSpaceLoop (extent : Extent) : List LdElfPhdr → Option Extent
  | [] => some extent
  | phdr :: rest =>
      if phdr.pType = ptTls then none
      else if phdr.pType ≠ ptLoad then osReserveSpaceLoop extent rest
      else osReserveSpaceLoop (extent.add phdr) rest

/-- `OsReserveSpace`: the size and the boundary, none when the size is 0. The size is computed in
32 bits before it is compared with `UINT_MAX`. -/
def osReserveSpace (elfPhdr : List LdElfPhdr) : Option (Word × Word) :=
  match osReserveSpaceLoop ⟨0, -1, 0, 0⟩ elfPhdr with
  | none => none
  | some extent =>
      if extent.addrMin = extent.addrMax ∨ extent.addrMax < extent.addrMin then none
      else
        let size := elfAlignUp extent.addrMax extent.boundary -
          elfAlignDown extent.addrMin extent.boundary +
          elfAlignDown extent.offStart extent.boundary
        if size = 0 then none else some (size, extent.boundary)

/-- An entry of the table of exported symbols that the linker makes. -/
structure SymInfo where
  name : List (BitVec 8)
  addr : Word
  deriving DecidableEq

/-- A library that is being loaded: its headers passed the checks, and `LOS_MemAllocAlign` served
the size that was reserved for it at an address that is aligned. -/
structure DynSharedObj where
  file : File
  elfPhdr : List LdElfPhdr
  loadSize : Word
  boundary : Word
  loadBase : Word
  /-- The table between `__sym_table_start` and `__sym_table_end`. -/
  symTable : List SymInfo
  verified : osLoadInit file = some elfPhdr
  reserved : osReserveSpace elfPhdr = some (loadSize, boundary)
  served : 0 < loadBase.toNat
  room : loadBase.toNat + loadSize.toNat ≤ 2 ^ 32
  powTwo : ∃ exponent, boundary.toNat = 2 ^ exponent
  aligned : boundary.toNat ∣ loadBase.toNat

/-! ### The segments -/

/-- The errors of loading and linking. -/
inductive Errno where
  | enoexec
  | efault
  | elibbad
  | enotsup
  deriving DecidableEq

def securecMemMaxLen : Word := 0x7fffffff

/-- `memset_s` of zeros, with the count as its limit. -/
def memsetS (memory : Memory) (dest count : Word) : Memory :=
  if count ≤ securecMemMaxLen ∧ dest ≠ 0 then memory.store dest (List.replicate count.toNat 0)
  else memory

/-- `OsDoLoadFile`: the memory, and the address or zero. -/
def osDoLoadFile (file : File) (memory : Memory) (addr : Word) (elfPhdr : LdElfPhdr)
    (boundary : Word) : Memory × Word :=
  let offset := elfPhdr.pOffset - elfAlignOffset elfPhdr.pVaddr boundary
  let size := elfPhdr.pFilesz + elfAlignOffset elfPhdr.pVaddr boundary
  if size = 0 then (memory, 0)
  else
    let addr := elfAlignDown addr boundary
    match osReadELFInfo file size offset with
    | none => (memory, 0)
    | some bytes => (memory.store addr bytes, addr)

namespace DynSharedObj

/-- A turn of the loop of `OsLoadELFFile`. -/
def osLoadELFFile (dso : DynSharedObj) (memory : Memory) (elfPhdrTemp : LdElfPhdr) :
    Memory × Option Errno :=
  if elfPhdrTemp.pType ≠ ptLoad then (memory, none)
  else if elfPhdrTemp.pFlags &&& pfR = 0 then (memory, some .enoexec)
  else
    let vAddr := elfPhdrTemp.pVaddr
    let loaded := osDoLoadFile dso.file memory (vAddr + dso.loadBase) elfPhdrTemp dso.boundary
    let loadAddr := loaded.2
    if loadAddr = 0 then (loaded.1, some .efault)
    else if elfPhdrTemp.pMemsz > elfPhdrTemp.pFilesz ∧ elfPhdrTemp.pFlags &&& pfW ≠ 0 then
      let bssStart := loadAddr + elfAlignOffset vAddr dso.boundary + elfPhdrTemp.pFilesz
      let bssEnd := loadAddr + elfAlignOffset vAddr dso.boundary + elfPhdrTemp.pMemsz
      (memsetS loaded.1 bssStart (bssEnd - bssStart), none)
    else (loaded.1, none)

end DynSharedObj

/-! ### The dynamic segment -/

structure RelocInfo where
  relTab : Word
  relTabSize : Word
  relEntSize : Word
  deriving DecidableEq

/-- The fields of `DynLinkInfo` that `OsParseDynamic` fills in. -/
structure DynLinkInfo where
  hashTab : Word
  symTab : Word
  symStrings : Word
  rel : RelocInfo
  rela : RelocInfo
  jmpRel : RelocInfo
  deriving DecidableEq

/-- What `memset_s` leaves in `OsLoadInit`. -/
def DynLinkInfo.zero : DynLinkInfo := ⟨0, 0, 0, ⟨0, 0, 0⟩, ⟨0, 0, 0⟩, ⟨0, 0, 0⟩⟩

def dtNull : Word := 0

def dtNeeded : Word := 1

def dtPltrelsz : Word := 2

def dtHash : Word := 4

def dtStrtab : Word := 5

def dtSymtab : Word := 6

def dtRela : Word := 7

def dtRelasz : Word := 8

def dtRel : Word := 17

def dtRelsz : Word := 18

def dtPltrel : Word := 20

def dtTextrel : Word := 22

def dtJmprel : Word := 23

def sizeofRel : Word := 8

def sizeofRela : Word := 12

/-- The number of steps after which a loop that moves through memory has been everywhere. -/
def addressCount : Nat := 2 ^ 32

namespace DynSharedObj

def osGetDynBase (dso : DynSharedObj) : Option Word :=
  (dso.elfPhdr.find? fun phdr => phdr.pType = ptDynamic).map fun phdr => dso.loadBase + phdr.pVaddr

/-- The switch of `OsParseDynamic`. -/
def osParseDynamicEntry (dso : DynSharedObj) (info : DynLinkInfo) (dTag dUn : Word) :
    Except Errno DynLinkInfo :=
  if dTag = dtNeeded then .error .enotsup
  else if dTag = dtTextrel then .error .efault
  else if dTag = dtHash then .ok { info with hashTab := dso.loadBase + dUn }
  else if dTag = dtSymtab then .ok { info with symTab := dso.loadBase + dUn }
  else if dTag = dtStrtab then .ok { info with symStrings := dso.loadBase + dUn }
  else if dTag = dtRel then
    .ok { info with rel := ⟨dso.loadBase + dUn, info.rel.relTabSize, sizeofRel⟩ }
  else if dTag = dtRelsz then .ok { info with rel := { info.rel with relTabSize := dUn } }
  else if dTag = dtRela then
    .ok { info with rela := ⟨dso.loadBase + dUn, info.rela.relTabSize, sizeofRela⟩ }
  else if dTag = dtRelasz then .ok { info with rela := { info.rela with relTabSize := dUn } }
  else if dTag = dtJmprel then
    .ok { info with jmpRel := { info.jmpRel with relTab := dso.loadBase + dUn } }
  else if dTag = dtPltrelsz then .ok { info with jmpRel := { info.jmpRel with relTabSize := dUn } }
  else if dTag = dtPltrel then
    .ok { info with jmpRel :=
      { info.jmpRel with relEntSize := if dUn = dtRel then sizeofRel else sizeofRela } }
  else .ok info

/-- `OsParseDynamic` from an entry on; none when it does not end in the number of steps. -/
def osParseDynamic (dso : DynSharedObj) (memory : Memory) :
    Nat → DynLinkInfo → Word → Option (Except Errno DynLinkInfo)
  | 0, _, _ => none
  | count + 1, info, dyn =>
      if memory.word dyn = dtNull then some (.ok info)
      else
        match dso.osParseDynamicEntry info (memory.word dyn) (memory.word (dyn + 4)) with
        | .error code => some (.error code)
        | .ok info => osParseDynamic dso memory count info (dyn + 8)

end DynSharedObj

/-! ### Symbols -/

/-- The characters from an address on. -/
def Memory.chars (memory : Memory) (address : Word) (index : Nat) : BitVec 8 :=
  memory.byte (address + .ofNat 32 index)

def SymInfo.chars (sym : SymInfo) (index : Nat) : BitVec 8 :=
  sym.name.getD index 0

/-- `strcmp` from an index on. -/
def strcmp (first second : Nat → BitVec 8) : Nat → Nat → Option Ordering
  | 0, _ => none
  | count + 1, index =>
      if first index ≠ second index then
        some (if first index < second index then .lt else .gt)
      else if first index = 0 then some .eq
      else strcmp first second count (index + 1)

/-- `OsGetHashVal` from an index on. -/
def osGetHashVal (name : Nat → BitVec 8) : Nat → Nat → Word → Option Word
  | 0, _, _ => none
  | count + 1, index, hashVal =>
      if name index = 0 then some hashVal
      else
        let hashVal := (name index).setWidth 32 + hashVal <<< 4
        let tmp := hashVal &&& 0xf0000000
        let hashVal := if tmp ≠ 0 then hashVal ^^^ tmp >>> 24 else hashVal
        osGetHashVal name count (index + 1) (hashVal &&& ~~~tmp)

/-- The loop of `OsFindSymInDso` over a chain: the symbol, or zero. -/
def osFindSymInChain (memory : Memory) (dlInfo : DynLinkInfo) (name chain : Word) :
    Nat → Word → Option Word
  | 0, _ => none
  | count + 1, symIdx =>
      if symIdx = 0 then some 0
      else
        let sym := dlInfo.symTab + 16 * symIdx
        match strcmp (memory.chars name) (memory.chars (dlInfo.symStrings + memory.word sym))
            addressCount 0 with
        | none => none
        | some .eq =>
            if memory.word (sym + 4) = 0 ∨ memory.half (sym + 14) = 0 then some 0 else some sym
        | some _ => osFindSymInChain memory dlInfo name chain count (memory.word (chain + 4 * symIdx))

/-- `OsFindSymInDso`. The remainder by zero is the dividend, as the division instruction of the
processor leaves it. -/
def osFindSymInDso (memory : Memory) (dlInfo : DynLinkInfo) (name : Word) : Option Word :=
  let bucketNum := memory.word dlInfo.hashTab
  let bucket := dlInfo.hashTab + 8
  let chain := bucket + 4 * bucketNum
  match osGetHashVal (memory.chars name) addressCount 0 0 with
  | none => none
  | some hashVal =>
      osFindSymInChain memory dlInfo name chain addressCount
        (memory.word (bucket + 4 * (hashVal % bucketNum)))

/-- The loop of `OsFindSymInTable`: the address, or zero. -/
def osFindSymInRange (memory : Memory) (symTab : List SymInfo) (name : Word) :
    Nat → Int → Int → Option Word
  | 0, _, _ => some 0
  | count + 1, startIdx, endIdx =>
      if startIdx ≤ endIdx then
        let midIdx := startIdx + (endIdx - startIdx) / 2
        let sym := symTab.getD midIdx.toNat ⟨[], 0⟩
        match strcmp sym.chars (memory.chars name) addressCount 0 with
        | none => none
        | some .gt => osFindSymInRange memory symTab name count startIdx (midIdx - 1)
        | some .lt => osFindSymInRange memory symTab name count (midIdx + 1) endIdx
        | some .eq => some sym.addr
      else some 0

/-- `OsFindSymInTable`. Every turn of its loop makes the range smaller. -/
def osFindSymInTable (memory : Memory) (symTab : List SymInfo) (name : Word) : Option Word :=
  osFindSymInRange memory symTab name symTab.length 0 (symTab.length - 1)

namespace DynSharedObj

/-- `OsFindSym`: the address of a symbol, zero when there is none. -/
def osFindSym (dso : DynSharedObj) (memory : Memory) (dlInfo : DynLinkInfo) (symIdx : Word) :
    Option Word :=
  let symStr := dlInfo.symStrings + memory.word (dlInfo.symTab + 16 * symIdx)
  match osFindSymInDso memory dlInfo symStr with
  | none => none
  | some symInDso =>
      if symInDso ≠ 0 then some (dso.loadBase + memory.word (symInDso + 4))
      else osFindSymInTable memory dso.symTable symStr

end DynSharedObj

/-! ### Relocations -/

def rArchNone : Word := 0

def rArchAbs32 : Word := 2

def rArchGlobDat : Word := 21

def rArchJumpSlot : Word := 22

def rArchRelative : Word := 23

namespace DynSharedObj

def osDoReloc (dso : DynSharedObj) (memory : Memory) (type relocAddr addend symAddr : Word) :
    Memory × Option Errno :=
  if type = rArchNone then (memory, none)
  else if type = rArchGlobDat ∨ type = rArchJumpSlot then
    (memory.store relocAddr (ByteMemory.ofWord (symAddr + addend)), none)
  else if type = rArchAbs32 then
    (memory.store relocAddr (ByteMemory.ofWord
      (symAddr + if addend ≠ 0 then addend else memory.word relocAddr)), none)
  else if type = rArchRelative then
    (memory.store relocAddr (ByteMemory.ofWord
      (dso.loadBase + if addend ≠ 0 then addend else memory.word relocAddr)), none)
  else (memory, some .enotsup)

/-- The address of the symbol of a relocation, zero when it has none; an error when the symbol is
not found. -/
def symAddrOf (dso : DynSharedObj) (memory : Memory) (dlInfo : DynLinkInfo) (symIdx : Word) :
    Option (Except Errno Word) :=
  if symIdx = 0 then some (.ok 0)
  else
    (dso.osFindSym memory dlInfo symIdx).map fun symAddr =>
      if symAddr = 0 then .error .efault else .ok symAddr

/-- A turn of the loop of `OsDoRelocSyms`; none when the search for the symbol does not end. -/
def osDoRelocSyms (dso : DynSharedObj) (memory : Memory) (dlInfo : DynLinkInfo)
    (relEntSize relTab : Word) : Option (Memory × Option Errno) :=
  let relStride := relEntSize / 4
  let type := memory.word (relTab + 4) &&& 0xff
  if type = rArchNone then some (memory, none)
  else
    match dso.symAddrOf memory dlInfo (memory.word (relTab + 4) >>> 8) with
    | none => none
    | some (.error code) => some (memory, some code)
    | some (.ok symAddr) =>
        let relocAddr := dso.loadBase + memory.word relTab
        let addend := if relEntSize = sizeofRel then 0 else memory.word (relTab + 4 * (relStride - 1))
        some (dso.osDoReloc memory type relocAddr addend symAddr)

end DynSharedObj

/-! ### The run of a load -/

/-- Where `LOS_SoLoad` is, from the call of `OsLoadELFFile` to the end of `OsDoDynLink`. -/
inductive Progress where
  /-- In the loop of `OsLoadELFFile`, before these headers. -/
  | loadELFFile (elfPhdrTemp : List LdElfPhdr)
  /-- Before `OsGetDynBase` and `OsParseDynamic`. -/
  | doDynLink
  /-- In the loop of `OsRelocSyms`, before these tables. -/
  | relocSyms (dlInfo : DynLinkInfo) (relInfo : List RelocInfo)
  /-- In the loop of `OsDoRelocSyms` over a table, before a relocation; the tables after it. -/
  | doRelocSyms (dlInfo : DynLinkInfo) (relInfo : RelocInfo) (i relTab : Word)
      (rest : List RelocInfo)
  | ended (result : Option Errno)
  deriving DecidableEq

structure State where
  memory : Memory
  progress : Progress

namespace DynSharedObj

/-- After a turn of a loop: on when there is no error. -/
def onwards (result : Memory × Option Errno) (next : Progress) : State :=
  match result.2 with
  | none => ⟨result.1, next⟩
  | some code => ⟨result.1, .ended (some code)⟩

/-- The next turn of a loop. There is none at the end, and none when a loop over memory does not
end. -/
def step (dso : DynSharedObj) (state : State) (_ : Unit) : Option State :=
  match state.progress with
  | .loadELFFile [] => some ⟨state.memory, .doDynLink⟩
  | .loadELFFile (elfPhdrTemp :: rest) =>
      some (onwards (dso.osLoadELFFile state.memory elfPhdrTemp) (.loadELFFile rest))
  | .doDynLink =>
      match dso.osGetDynBase with
      | none => some ⟨state.memory, .ended (some .elibbad)⟩
      | some dynBase =>
          match dso.osParseDynamic state.memory addressCount .zero dynBase with
          | none => none
          | some (.error code) => some ⟨state.memory, .ended (some code)⟩
          | some (.ok dlInfo) =>
              some ⟨state.memory, .relocSyms dlInfo [dlInfo.rel, dlInfo.rela, dlInfo.jmpRel]⟩
  | .relocSyms _ [] => some ⟨state.memory, .ended none⟩
  | .relocSyms dlInfo (relInfo :: rest) =>
      if relInfo.relTab = 0 then some ⟨state.memory, .relocSyms dlInfo rest⟩
      else some ⟨state.memory, .doRelocSyms dlInfo relInfo 0 relInfo.relTab rest⟩
  | .doRelocSyms dlInfo relInfo i relTab rest =>
      if i < relInfo.relTabSize then
        (dso.osDoRelocSyms state.memory dlInfo relInfo.relEntSize relTab).map fun result =>
          onwards result (.doRelocSyms dlInfo relInfo (i + relInfo.relEntSize)
            (relTab + 4 * (relInfo.relEntSize / 4)) rest)
      else some ⟨state.memory, .relocSyms dlInfo rest⟩
  | .ended _ => none

/-- The load begins with whatever was in memory, and with nothing written. -/
def Begins (dso : DynSharedObj) (state : State) : Prop :=
  state.memory.written = [] ∧ state.progress = .loadELFFile dso.elfPhdr

/-- The states of a load. -/
abbrev Reached (dso : DynSharedObj) : State → Prop :=
  Reachable dso.step (fun _ _ => True) dso.Begins

/-! ### Staying in the reserved interval -/

/-- The bytes that `OsDoLoadFile` reads; none when it fails. -/
def fileBytes (file : File) (phdr : LdElfPhdr) (boundary : Word) : File :=
  (osReadELFInfo file (phdr.pFilesz + elfAlignOffset phdr.pVaddr boundary)
    (phdr.pOffset - elfAlignOffset phdr.pVaddr boundary)).getD []

def Contained (dso : DynSharedObj) (memory : Memory) : Prop :=
  memory.Within dso.loadBase dso.loadSize.toNat

/-- The bytes that are read for a segment; none when it is not loaded. -/
def segmentBytes (dso : DynSharedObj) (phdr : LdElfPhdr) : File :=
  if phdr.pType ≠ ptLoad ∨ phdr.pFlags &&& pfR = 0 then []
  else fileBytes dso.file phdr dso.boundary

/-- The bytes after the file part of a segment are cleared. -/
def ClearsRest (dso : DynSharedObj) (phdr : LdElfPhdr) : Prop :=
  phdr.pMemsz > phdr.pFilesz ∧ phdr.pFlags &&& pfW ≠ 0 ∧
    phdr.pMemsz - phdr.pFilesz ≤ securecMemMaxLen ∧
      dso.loadBase + (phdr.pVaddr + phdr.pFilesz) ≠ 0

/-- The bytes of a segment that is loaded end before the end of the reserved size, and so do those
that are cleared after them. -/
def SegmentFits (dso : DynSharedObj) (phdr : LdElfPhdr) : Prop :=
  dso.segmentBytes phdr ≠ [] →
    (elfAlignDown phdr.pVaddr dso.boundary).toNat + (dso.segmentBytes phdr).length ≤
        dso.loadSize.toNat ∧
      (dso.ClearsRest phdr →
        (phdr.pVaddr + phdr.pFilesz).toNat + (phdr.pMemsz - phdr.pFilesz).toNat ≤
          dso.loadSize.toNat)

/-- The types of the relocations that write. -/
def writes (type : Word) : Bool :=
  type = rArchGlobDat || type = rArchJumpSlot || type = rArchAbs32 || type = rArchRelative

/-- The word of a relocation that is applied ends before the end of the reserved size. -/
def RelocFits (dso : DynSharedObj) (memory : Memory) (dlInfo : DynLinkInfo) (relTab : Word) : Prop :=
  ∀ symAddr, dso.symAddrOf memory dlInfo (memory.word (relTab + 4) >>> 8) = some (.ok symAddr) →
    writes (memory.word (relTab + 4) &&& 0xff) = true →
      (memory.word relTab).toNat + 4 ≤ dso.loadSize.toNat

/-- The segment or the relocation that comes next fits. -/
def Fits (dso : DynSharedObj) (state : State) : Prop :=
  match state.progress with
  | .loadELFFile (phdr :: _) => dso.SegmentFits phdr
  | .doRelocSyms dlInfo relInfo i relTab _ =>
      i < relInfo.relTabSize → dso.RelocFits state.memory dlInfo relTab
  | _ => True

variable {dso : DynSharedObj} {memory : Memory}

theorem elfAlignDown_add_offset (address boundary : Word) :
    elfAlignDown address boundary + elfAlignOffset address boundary = address := by
  rw [elfAlignDown, elfAlignOffset, and_not_eq_sub, BitVec.sub_add_cancel]

theorem elfAlignDown_base (dso : DynSharedObj) (address : Word) :
    elfAlignDown (address + dso.loadBase) dso.boundary =
      dso.loadBase + elfAlignDown address dso.boundary := by
  obtain ⟨exponent, powTwo⟩ := dso.powTwo
  rw [elfAlignDown, elfAlignDown, and_not_eq_sub, and_not_eq_sub, BitVec.add_comm address,
    and_sub_one_add powTwo dso.aligned, add_sub_assoc]

variable {offset : Word}

/-- A store above the base. -/
theorem contained_store_iff {bytes : File} :
    dso.Contained (memory.store (dso.loadBase + offset) bytes) ↔
      dso.Contained memory ∧ (bytes ≠ [] → offset.toNat + bytes.length ≤ dso.loadSize.toNat) :=
  ByteMemory.within_store_iff dso.room dso.served

theorem contained_memsetS_iff {count : Word} (more : count ≠ 0) :
    dso.Contained (memsetS memory (dso.loadBase + offset) count) ↔
      dso.Contained memory ∧ (count ≤ securecMemMaxLen ∧ dso.loadBase + offset ≠ 0 →
        offset.toNat + count.toNat ≤ dso.loadSize.toNat) := by
  rw [memsetS]
  split
  · rename_i checks
    have positive : List.replicate count.toNat (0 : BitVec 8) ≠ [] := by
      intro empty
      rw [List.replicate_eq_nil_iff] at empty
      exact more (BitVec.eq_of_toNat_eq empty)
    rw [contained_store_iff, List.length_replicate]
    exact and_congr_right fun _ => ⟨fun fits _ => fits positive, fun fits _ => fits checks⟩
  · rename_i fails
    exact (and_iff_left fun checks => absurd checks fails).symm

variable {phdr : LdElfPhdr}

theorem osDoLoadFile_nil {file : File} {addr boundary : Word}
    (fails : fileBytes file phdr boundary = []) :
    osDoLoadFile file memory addr phdr boundary = (memory, 0) := by
  unfold osDoLoadFile
  dsimp only
  split
  · rfl
  rename_i size
  rw [fileBytes, osReadELFInfo, if_neg size] at fails
  rw [osReadELFInfo, if_neg size]
  dsimp only at fails ⊢
  split at fails
  · rename_i empty
    rw [if_pos empty]
  · rename_i some_
    exact absurd fails some_

theorem osDoLoadFile_of_ne_nil {file : File} {addr boundary : Word}
    (reads : fileBytes file phdr boundary ≠ []) : osDoLoadFile file memory addr phdr boundary =
      (memory.store (elfAlignDown addr boundary) (fileBytes file phdr boundary),
        elfAlignDown addr boundary) := by
  unfold osDoLoadFile
  dsimp only
  split
  · rename_i size
    rw [fileBytes, osReadELFInfo, if_pos size] at reads
    exact absurd rfl reads
  split
  · rename_i read
    rw [fileBytes, read] at reads
    exact absurd rfl reads
  · rename_i bytes read
    rw [fileBytes, read, getD_some]

theorem osLoadELFFile_nil (fails : dso.segmentBytes phdr = []) :
    (dso.osLoadELFFile memory phdr).1 = memory := by
  rw [segmentBytes] at fails
  rw [osLoadELFFile]
  split
  · rfl
  rename_i load
  split
  · rfl
  rename_i readable
  rw [if_neg (not_or.mpr ⟨load, readable⟩)] at fails
  dsimp only
  rw [osDoLoadFile_nil fails]
  rfl

theorem osLoadELFFile_of_ne_nil (reads : dso.segmentBytes phdr ≠ []) :
    dso.osLoadELFFile memory phdr = if dso.loadBase + elfAlignDown phdr.pVaddr dso.boundary = 0 then
        (memory.store (dso.loadBase + elfAlignDown phdr.pVaddr dso.boundary)
          (dso.segmentBytes phdr), some .efault)
      else if phdr.pMemsz > phdr.pFilesz ∧ phdr.pFlags &&& pfW ≠ 0 then
        (memsetS (memory.store (dso.loadBase + elfAlignDown phdr.pVaddr dso.boundary)
          (dso.segmentBytes phdr)) (dso.loadBase + (phdr.pVaddr + phdr.pFilesz))
            (phdr.pMemsz - phdr.pFilesz), none) else
        (memory.store (dso.loadBase + elfAlignDown phdr.pVaddr dso.boundary)
          (dso.segmentBytes phdr), none) := by
  have loads : ¬(phdr.pType ≠ ptLoad ∨ phdr.pFlags &&& pfR = 0) := by
    intro skipped
    rw [segmentBytes, if_pos skipped] at reads
    exact reads rfl
  rw [segmentBytes, if_neg loads] at reads ⊢
  rw [not_or] at loads
  rw [osLoadELFFile, if_neg loads.1, if_neg loads.2]
  dsimp only
  rw [osDoLoadFile_of_ne_nil reads, elfAlignDown_base]
  have begins : dso.loadBase + elfAlignDown phdr.pVaddr dso.boundary +
      elfAlignOffset phdr.pVaddr dso.boundary = dso.loadBase + phdr.pVaddr := by
    rw [BitVec.add_assoc, elfAlignDown_add_offset]
  have length : dso.loadBase + phdr.pVaddr + phdr.pMemsz -
      (dso.loadBase + phdr.pVaddr + phdr.pFilesz) = phdr.pMemsz - phdr.pFilesz :=
    add_sub_add_left_eq_sub _ _ _
  rw [begins, length, BitVec.add_assoc dso.loadBase phdr.pVaddr phdr.pFilesz]

theorem base_add_ne_zero {count : Nat} (more : 0 < count)
    (fits : offset.toNat + count ≤ dso.loadSize.toNat) : dso.loadBase + offset ≠ 0 := by
  intro zero
  have number := congrArg BitVec.toNat zero
  have room := dso.room
  have served := dso.served
  rw [BitVec.toNat_add, Nat.mod_eq_of_lt (by omega)] at number
  exact absurd number (Nat.ne_of_gt (Nat.lt_of_lt_of_le served (Nat.le_add_right ..)))

/-- A turn of the loop over the program headers. -/
theorem contained_osLoadELFFile_iff (phdr : LdElfPhdr) :
    dso.Contained (dso.osLoadELFFile memory phdr).1 ↔
      dso.Contained memory ∧ dso.SegmentFits phdr := by
  rw [SegmentFits]
  by_cases fails : dso.segmentBytes phdr = []
  · rw [osLoadELFFile_nil fails]
    exact (and_iff_left fun some_ => absurd fails some_).symm
  have stored := @contained_store_iff dso memory (elfAlignDown phdr.pVaddr dso.boundary)
    (dso.segmentBytes phdr)
  rw [imp_iff_right fails] at stored ⊢
  rw [osLoadELFFile_of_ne_nil fails]
  split
  · rename_i zero
    rw [stored]
    exact and_congr_right fun _ => (and_iff_left_of_imp fun fits =>
      absurd zero (base_add_ne_zero (List.length_pos_iff.mpr fails) fits)).symm
  split
  · rename_i rest
    have more : phdr.pMemsz - phdr.pFilesz ≠ 0 := fun same =>
      absurd (sub_eq_zero.mp same ▸ rest.1) (BitVec.lt_irrefl _)
    rw [contained_memsetS_iff more, stored, and_assoc]
    exact and_congr_right fun _ => and_congr_right fun _ =>
      ⟨fun fits checks => fits checks.2.2, fun fits checks => fits ⟨rest.1, rest.2, checks⟩⟩
  · rename_i rest
    rw [stored]
    exact and_congr_right fun _ => (and_iff_left fun checks =>
      absurd ⟨checks.1, checks.2.1⟩ rest).symm

/-- What `OsDoReloc` writes is a word at the address of the relocation, or nothing. -/
theorem contained_osDoReloc_iff {type addend symAddr : Word} :
    dso.Contained (dso.osDoReloc memory type (dso.loadBase + offset) addend symAddr).1 ↔
      dso.Contained memory ∧ (writes type = true → offset.toNat + 4 ≤ dso.loadSize.toNat) := by
  have stored : ∀ value : Word,
      dso.Contained (memory.store (dso.loadBase + offset) (ByteMemory.ofWord value)) ↔
        dso.Contained memory ∧ offset.toNat + 4 ≤ dso.loadSize.toNat := by
    intro value
    rw [contained_store_iff]
    exact and_congr_right fun _ => ⟨fun fits => fits (List.cons_ne_nil _ _), fun fits _ => fits⟩
  have silent : writes type = false → ∀ result : Option Errno, dso.Contained (memory, result).1 ↔
        dso.Contained memory ∧ (writes type = true → offset.toNat + 4 ≤ dso.loadSize.toNat) :=
    fun quiet _ => (and_iff_left fun loud => absurd (quiet.symm.trans loud) Bool.false_ne_true).symm
  rw [osDoReloc]
  split
  · rename_i same
    exact silent (same ▸ rfl) _
  split
  · rename_i same
    rw [stored, imp_iff_right (by rcases same with rfl | rfl <;> rfl)]
  split
  · rename_i same
    rw [stored, imp_iff_right (same ▸ rfl)]
  split
  · rename_i same
    rw [stored, imp_iff_right (same ▸ rfl)]
  · rename_i _ others absolute relative
    rw [not_or] at others
    simp [writes, others.1, others.2, absolute, relative]

/-- A turn of the loop over a table of relocations. -/
theorem contained_osDoRelocSyms_iff {dlInfo : DynLinkInfo} {relEntSize relTab : Word}
    {result : Memory × Option Errno}
    (turns : dso.osDoRelocSyms memory dlInfo relEntSize relTab = some result) :
    dso.Contained result.1 ↔ dso.Contained memory ∧ dso.RelocFits memory dlInfo relTab := by
  rw [osDoRelocSyms] at turns
  rw [RelocFits]
  split at turns
  · rename_i none_
    obtain rfl := some.inj turns
    rw [none_]
    exact (and_iff_left fun _ _ loud => absurd loud Bool.false_ne_true).symm
  cases found : dso.symAddrOf memory dlInfo (memory.word (relTab + 4) >>> 8) with
  | none =>
    rw [found] at turns
    cases turns
  | some address =>
    rw [found] at turns
    cases address with
    | error code =>
      obtain rfl := some.inj turns
      exact (and_iff_left fun symAddr same => by cases same).symm
    | ok symAddr =>
      obtain rfl := some.inj turns
      rw [contained_osDoReloc_iff]
      exact and_congr_right fun _ => ⟨fun fits _ _ => fits, fun fits => fits symAddr rfl⟩

theorem osDoRelocSyms_of_not_fits {dlInfo : DynLinkInfo} {relEntSize relTab : Word}
    (past : ¬dso.RelocFits memory dlInfo relTab) :
    ∃ result, dso.osDoRelocSyms memory dlInfo relEntSize relTab = some result := by
  rw [RelocFits] at past
  push Not at past
  obtain ⟨symAddr, found, -, -⟩ := past
  rw [osDoRelocSyms]
  split
  · exact ⟨_, rfl⟩
  · rw [found]
    exact ⟨_, rfl⟩

theorem onwards_memory (result : Memory × Option Errno) (next : Progress) :
    (onwards result next).memory = result.1 := by
  rw [onwards]
  split <;> rfl

/-- A step stays in the reserved interval exactly when what comes next fits. -/
theorem contained_step_iff {state next : State} (steps : dso.step state () = some next) :
    dso.Contained next.memory ↔ dso.Contained state.memory ∧ dso.Fits state := by
  obtain ⟨memory, progress⟩ := state
  have quiet : ∀ {progress' : Progress}, dso.Fits ⟨memory, progress⟩ →
      some (⟨memory, progress'⟩ : State) = some next →
        (dso.Contained next.memory ↔ dso.Contained memory ∧ dso.Fits ⟨memory, progress⟩) := by
    intro progress' fits same
    obtain rfl := some.inj same
    exact (and_iff_left fits).symm
  cases progress with
  | loadELFFile headers =>
    cases headers with
    | nil => exact quiet trivial steps
    | cons phdr rest =>
      obtain rfl := some.inj steps
      rw [onwards_memory]
      exact contained_osLoadELFFile_iff phdr
  | doDynLink =>
    rw [step] at steps
    dsimp only at steps
    split at steps
    · exact quiet trivial steps
    split at steps
    · cases steps
    · exact quiet trivial steps
    · exact quiet trivial steps
  | relocSyms dlInfo tables =>
    cases tables with
    | nil => exact quiet trivial steps
    | cons relInfo rest =>
      rw [step] at steps
      dsimp only at steps
      split at steps
      · exact quiet trivial steps
      · exact quiet trivial steps
  | doRelocSyms dlInfo relInfo i relTab rest =>
    rw [step] at steps
    dsimp only at steps
    split at steps
    · rename_i inside
      obtain ⟨result, turns, rfl⟩ := map_eq_some_iff.mp steps
      rw [onwards_memory, contained_osDoRelocSyms_iff turns]
      exact and_congr_right fun _ => (imp_iff_right inside).symm
    · rename_i past
      exact quiet (fun inside => absurd inside past) steps
  | ended result => cases steps

theorem step_of_not_fits {state : State} (past : ¬dso.Fits state) :
    ∃ next, dso.step state () = some next := by
  obtain ⟨memory, progress⟩ := state
  cases progress with
  | loadELFFile headers =>
    cases headers with
    | nil => exact absurd trivial past
    | cons phdr rest => exact ⟨_, rfl⟩
  | doRelocSyms dlInfo relInfo i relTab rest =>
    obtain ⟨inside, past⟩ := Classical.not_imp.mp past
    obtain ⟨result, turns⟩ := @osDoRelocSyms_of_not_fits _ _ _ relInfo.relEntSize _ past
    rw [step]
    dsimp only
    rw [if_pos inside, turns]
    exact ⟨_, rfl⟩
  | doDynLink => exact absurd trivial past
  | relocSyms dlInfo tables => exact absurd trivial past
  | ended result => exact absurd trivial past

/-- In a load of any file that passes the checks, every byte written is in the reserved interval
exactly when every segment that is loaded and every relocation that is applied fits. -/
theorem writes_contained_iff (dso : DynSharedObj) :
    (∀ state, dso.Reached state → dso.Contained state.memory) ↔
      ∀ state, dso.Reached state → dso.Fits state := by
  constructor
  · intro contained state reached
    by_contra past
    obtain ⟨next, steps⟩ := step_of_not_fits past
    exact past ((contained_step_iff steps).mp (contained next (reached.step trivial steps))).2
  · intro fits state reached
    refine @Reachable.invariant State Unit dso.step _ dso.Begins state
      (fun state => dso.Contained state.memory) (fun first begins => ?_)
      (fun state _ next reached contained _ steps =>
        (contained_step_iff steps).mpr ⟨contained, fits state reached⟩) reached
    show ∀ address ∈ first.memory.written, _
    rw [begins.1]
    exact List.forall_mem_nil _

/-! ### A segment at its own address -/

instance (dso : DynSharedObj) (memory : Memory) : Decidable (dso.Contained memory) :=
  List.decidableBAll _ memory.written

/-- An ELF header for ARM with some program headers after it, and what comes after these. -/
def fileOf (headers : List (List Word)) (rest : List Word) : File :=
  [0x7f, 0x45, 0x4c, 0x46] ++ List.replicate 12 0 ++ [3, 0, 40, 0] ++ List.replicate 8 0 ++
    [52, 0, 0, 0] ++ List.replicate 10 0 ++ [32, 0, .ofNat 8 headers.length, 0] ++
      List.replicate 6 0 ++ (headers.flatten ++ rest).flatMap ByteMemory.ofWord

/-- A library whose one segment, of 84 bytes, begins at the address 0x1000. -/
def unbased : DynSharedObj where
  file := fileOf [[1, 0, 0x1000, 0, 84, 84, 4, 0x1000]] []
  elfPhdr := [⟨1, 0, 0x1000, 84, 84, 4, 0x1000⟩]
  loadSize := 0x1000
  boundary := 0x1000
  loadBase := 0x20000000
  symTable := []
  verified := by decide +kernel
  reserved := by decide +kernel
  served := by decide
  room := by decide
  powTwo := ⟨12, by decide⟩
  aligned := by decide

/-- The segment is loaded after the end of the reserved interval. -/
theorem unbased_escapes : ∃ state, unbased.Reached state ∧ ¬unbased.Contained state.memory := by
  have begins : unbased.Reached ⟨⟨fun _ => 0, []⟩, .loadELFFile unbased.elfPhdr⟩ :=
    .start ⟨rfl, rfl⟩
  have past : ¬unbased.SegmentFits ⟨1, 0, 0x1000, 84, 84, 4, 0x1000⟩ := fun fits =>
    absurd (fits (by decide +kernel)).1 (by decide +kernel)
  obtain ⟨next, steps⟩ := @step_of_not_fits unbased
    ⟨⟨fun _ => 0, []⟩, .loadELFFile unbased.elfPhdr⟩ past
  exact ⟨next, begins.step trivial steps, fun contained =>
    past ((contained_step_iff steps).mp contained).2⟩

/-- A library whose segment fits, with a relocation at the address 0x1000 in its table. -/
def strayReloc : DynSharedObj where
  file := fileOf [[1, 0, 0, 0, 148, 148, 6, 4], [2, 116, 116, 0, 24, 24, 6, 4]]
    [17, 140, 18, 8, 0, 0, 0x1000, 23]
  elfPhdr := [⟨1, 0, 0, 148, 148, 6, 4⟩, ⟨2, 116, 116, 24, 24, 6, 4⟩]
  loadSize := 148
  boundary := 4
  loadBase := 0x20000000
  symTable := []
  verified := by decide +kernel
  reserved := by decide +kernel
  served := by decide
  room := by decide
  powTwo := ⟨2, by decide⟩
  aligned := by decide

example : (execute strayReloc.step (fun _ _ => true)
    ⟨⟨fun _ => 0, []⟩, .loadELFFile strayReloc.elfPhdr⟩ (List.replicate 6 ())).map
      (fun state => (decide (strayReloc.Contained state.memory), state.memory.written.head?)) =
    some (false, some 0x20001003) := by
  decide +kernel

end DynSharedObj

end TowerSafe.Dynlink
