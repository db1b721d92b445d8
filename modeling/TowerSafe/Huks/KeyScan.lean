/-
This file embeds the two walks of `hks_storage_lite.c` through the image of the key store as they
read its memory: the search for an alias, and the list of all keys. Whatever the image holds, they
read nothing but two fields of its header and the entries before its total length, and the entries
that they report lie in it.
-/

import TowerSafe.Huks.StorageAdapter

namespace TowerSafe.KeyScan

open Library ParamSet StorageAdapter List
open Except (ok.inj)

/-- The memory of the image: an area of the address space, whose size fits into 32 bits. -/
structure StorageBuf (abi : Abi) where
  area : Area
  size_lt : area.size < 2 ^ 32
  space : area.end_ ≤ 256 ^ abi.pointerSize

/-- `sizeof(struct HksStoreHeaderInfo)`. -/
def sizeofHeaderInfo : Nat := 92

/-- The return values other than `HKS_SUCCESS`, and an entry of the caller's list that is not
there. -/
inductive Failure where
  | invalidKeyFile
  | notExist
  | bufferTooSmall
  | insufficientMemory
  | translate (failure : StorageAdapter.Failure)
  | outsideList
  deriving DecidableEq

section Walks

variable {abi : Abi} (memory : Memory) (storageBuf : StorageBuf abi)

/-- Where `keyCount` is in the header. -/
def keyCountArea : Area := ⟨storageBuf.area.addr + 2, 2⟩

/-- Where `totalLen` is in the header. -/
def totalLenArea : Area := ⟨storageBuf.area.addr + 4, 4⟩

/-- `keyInfoHead->keyCount`. -/
def readKeyCount : Reading Failure Nat := do
  let bytes ← Reading.read memory (keyCountArea storageBuf)
  pure (Bytes.toNat bytes)

/-- `keyInfoHead->totalLen`. -/
def readTotalLen : Reading Failure Nat := do
  let bytes ← Reading.read memory (totalLenArea storageBuf)
  pure (Bytes.toNat bytes)

/-- The checks of both loops, and the key info at an offset. -/
def entryAt (totalLen offset : Nat) : Reading Failure HksStoreKeyInfo :=
  if totalLen < offset ∨ totalLen - offset < sizeofKeyInfo then
    Reading.fail .invalidKeyFile
  else do
    let keyInfo ← readKeyInfo memory (storageBuf.area.addr + offset)
    if hksIsKeyInfoLenInvalid keyInfo ∨ keyInfo.keyInfoLen.toNat > totalLen - offset then
      Reading.fail .invalidKeyFile
    else
      pure keyInfo

def nextOffset (offset : Nat) (keyInfo : HksStoreKeyInfo) : Nat :=
  (offset + keyInfo.keyInfoLen.toNat) % 2 ^ 32

/-- The loop of `GetKeyOffsetByKeyAlias`, with the turns that are left. -/
def findLoop (keyAlias : Bytes) (totalLen : Nat) : Nat → Nat → Reading Failure Nat
  | 0, _ => Reading.fail .notExist
  | turns + 1, offset => do
    let keyInfo ← entryAt memory storageBuf totalLen offset
    if keyInfo.aliasSize.toNat = keyAlias.length then
      let stored ← Reading.read memory
        ⟨storageBuf.area.addr + offset + sizeofKeyInfo, keyAlias.length⟩
      if keyAlias = stored then
        pure offset
      else
        findLoop keyAlias totalLen turns (nextOffset offset keyInfo)
    else
      findLoop keyAlias totalLen turns (nextOffset offset keyInfo)

def getKeyOffsetByKeyAlias (keyAlias : Bytes) : Reading Failure Nat :=
  if storageBuf.area.size < sizeofHeaderInfo then
    Reading.fail .invalidKeyFile
  else do
    let keyCount ← readKeyCount memory storageBuf
    let totalLen ← readTotalLen memory storageBuf
    if keyCount = 0 then
      Reading.fail .notExist
    else if totalLen > storageBuf.area.size then
      Reading.fail .invalidKeyFile
    else
      findLoop memory storageBuf keyAlias totalLen keyCount sizeofHeaderInfo

/-- What a `struct HksKeyInfo` of the caller's list has room for. -/
structure HksKeyInfo where
  aliasSize : BitVec 32
  aliasData : Nat
  paramSetSize : BitVec 32
  deriving DecidableEq

/-- What is put into an element of the list, and the offset of the entry that it is from. -/
structure Listed where
  offset : Nat
  keyAlias : Bytes
  paramSet : Bytes
  deriving DecidableEq

/-- Whether `memcpy_s` copies between objects that do not overlap. -/
def copies (dest destMax count : Nat) : Bool :=
  decide (destMax ≠ 0 ∧ destMax ≤ memMaxLen ∧ dest ≠ 0 ∧ count ≤ destMax)

variable (heap : Heap abi)

/-- `GetKeyInfoList`, of the entry at an offset. -/
def getKeyInfoList (keyInfoList : HksKeyInfo) (offset : Nat) (keyInfoBlob : Area) :
    Reading Failure Listed := do
  let keyInfo ← readKeyInfo memory keyInfoBlob.addr
  if keyInfoList.aliasSize.toNat < keyInfo.aliasSize.toNat then
    Reading.fail .bufferTooSmall
  else if copies keyInfoList.aliasData keyInfoList.aliasSize.toNat keyInfo.aliasSize.toNat then
    let keyAlias ← Reading.read memory
      ⟨keyInfoBlob.addr + sizeofKeyInfo, keyInfo.aliasSize.toNat⟩
    let paramSet ← translated (translateKeyInfoBlobToParamSet heap memory none keyInfoBlob)
    let paramSetSize := Bytes.toNat (Bytes.slice paramSet.2 0 4)
    if keyInfoList.paramSetSize.toNat < paramSetSize then
      Reading.fail .bufferTooSmall
    else if keyInfoList.paramSetSize.toNat = 0 ∨ memMaxLen < keyInfoList.paramSetSize.toNat then
      Reading.fail .insufficientMemory
    else
      pure ⟨offset, keyAlias, paramSet.2.take paramSetSize⟩
  else
    Reading.fail .insufficientMemory
where
  /-- The failure of another file is passed on. -/
  translated {Value : Type} (reading : Reading StorageAdapter.Failure Value) :
      Reading Failure Value :=
    ⟨reading.result.mapError .translate, reading.reads⟩

/-- `GetAndCheckKeyCount`: the number of keys in the image. -/
def getAndCheckKeyCount (inputCount : Nat) : Reading Failure Nat :=
  if storageBuf.area.size < sizeofHeaderInfo then
    Reading.fail .invalidKeyFile
  else do
    let keyCount ← readKeyCount memory storageBuf
    if keyCount = 0 then
      pure 0
    else
      let totalLen ← readTotalLen memory storageBuf
      if storageBuf.area.size < totalLen then
        Reading.fail .invalidKeyFile
      else if inputCount < keyCount then
        Reading.fail .bufferTooSmall
      else
        pure keyCount

/-- The loop of `HksStoreGetKeyInfoList`, with the turns and the elements that are left. -/
def listLoop (totalLen : Nat) : Nat → List HksKeyInfo → Nat → Reading Failure (List Listed)
  | 0, _, _ => pure []
  | _ + 1, [], _ => Reading.fail .outsideList
  | turns + 1, keyInfoList :: rest, offset => do
    let keyInfo ← entryAt memory storageBuf totalLen offset
    let listed ← getKeyInfoList memory heap keyInfoList offset
      ⟨storageBuf.area.addr + offset, keyInfo.keyInfoLen.toNat⟩
    let others ← listLoop totalLen turns rest (nextOffset offset keyInfo)
    pure (listed :: others)

/-- `HksStoreGetKeyInfoList`, with as many elements as `listCount` says. -/
def hksStoreGetKeyInfoList (keyInfoList : List HksKeyInfo) : Reading Failure (List Listed) := do
  let keyCount ← getAndCheckKeyCount memory storageBuf keyInfoList.length
  let totalLen ← readTotalLen memory storageBuf
  listLoop memory storageBuf heap totalLen keyCount keyInfoList sizeofHeaderInfo

/-! ### What is read and reported -/

/-- An entry lies in the image behind its header, and its parts add up to its length. -/
structure Entry (totalLen offset : Nat) : Prop where
  valid : Valid (keyInfoAt memory (storageBuf.area.addr + offset))
  behind : sizeofHeaderInfo ≤ offset
  inside : offset + (keyInfoAt memory (storageBuf.area.addr + offset)).keyInfoLen.toNat ≤ totalLen

def entriesArea (totalLen : Nat) : Area :=
  ⟨storageBuf.area.addr + sizeofHeaderInfo, totalLen - sizeofHeaderInfo⟩

def totalLenAt : Nat := Bytes.toNat (Area.bytes memory (totalLenArea storageBuf))

/-- What the walks may read: two fields of the header, and when the total length is no more than
the size of the image, what is behind the header and before it. -/
def MayRead (area : Area) : Prop :=
  area = keyCountArea storageBuf ∨ area = totalLenArea storageBuf ∨
    totalLenAt memory storageBuf ≤ storageBuf.area.size ∧
      area.Inside (entriesArea storageBuf (totalLenAt memory storageBuf))

variable {memory storageBuf heap}

variable {totalLen offset : Nat}

/-- The checks of the loops leave valid entries, and read no others. -/
theorem entryAt_spec (behind : sizeofHeaderInfo ≤ offset) :
    (entryAt memory storageBuf totalLen offset).Within (entriesArea storageBuf totalLen) ∧
      ∀ keyInfo, (entryAt memory storageBuf totalLen offset).result = .ok keyInfo →
        keyInfo = keyInfoAt memory (storageBuf.area.addr + offset) ∧
          Entry memory storageBuf totalLen offset := by
  unfold entryAt
  split_ifs with short
  · exact ⟨Reading.within_fail, fun _ no => by cases no⟩
  · refine ⟨Reading.within_bind.mpr ⟨within_readKeyInfo.mpr ?_, fun keyInfo _ => ?_⟩,
      fun keyInfo found => ?_⟩
    · simp only [Area.Inside, Area.end_, entriesArea]
      omega
    · split_ifs
      · exact Reading.within_fail
      · exact Reading.within_pure
    · obtain ⟨info, read, found⟩ := Reading.result_bind.mp found
      obtain rfl := ok.inj read
      split_ifs at found with invalid
      · cases found
      · obtain rfl := Reading.result_pure.mp found
        obtain ⟨valid, fits⟩ := not_or.mp invalid
        refine ⟨rfl, hksIsKeyInfoLenInvalid_eq_false.mp (Bool.eq_false_of_not_eq_true valid),
          behind, ?_⟩
        have room : (keyInfoAt memory (storageBuf.area.addr + offset)).keyInfoLen.toNat ≤
            totalLen - offset := Nat.le_of_not_lt fits
        omega

theorem Entry.nextOffset_eq
    (entry : Entry memory storageBuf totalLen offset) (room : totalLen ≤ storageBuf.area.size) :
    nextOffset offset (keyInfoAt memory (storageBuf.area.addr + offset)) =
        offset + (keyInfoAt memory (storageBuf.area.addr + offset)).keyInfoLen.toNat ∧
      sizeofHeaderInfo ≤ nextOffset offset (keyInfoAt memory (storageBuf.area.addr + offset)) := by
  have inside := entry.inside
  have behind := entry.behind
  have small := storageBuf.size_lt
  have same : nextOffset offset (keyInfoAt memory (storageBuf.area.addr + offset)) =
      offset + (keyInfoAt memory (storageBuf.area.addr + offset)).keyInfoLen.toNat :=
    Nat.mod_eq_of_lt (by omega)
  exact ⟨same, by omega⟩

theorem Entry.area_inside (entry : Entry memory storageBuf totalLen offset) :
    (⟨storageBuf.area.addr + offset,
      (keyInfoAt memory (storageBuf.area.addr + offset)).keyInfoLen.toNat⟩ : Area).Inside
        (entriesArea storageBuf totalLen) := by
  have inside := entry.inside
  have behind := entry.behind
  simp only [Area.Inside, Area.end_, entriesArea]
  omega

theorem alias_inside {keyInfo : HksStoreKeyInfo} (valid : Valid keyInfo) (tmpBuf : Nat) :
    (⟨tmpBuf + sizeofKeyInfo, keyInfo.aliasSize.toNat⟩ : Area).Inside
      ⟨tmpBuf, keyInfo.keyInfoLen.toNat⟩ := by
  have sum := valid.sum
  simp only [Area.Inside, Area.end_]
  omega

/-- The search reads entries only, and what it finds is one. -/
theorem findLoop_spec {keyAlias : Bytes} {turns : Nat}
    (behind : sizeofHeaderInfo ≤ offset) (room : totalLen ≤ storageBuf.area.size) :
    (findLoop memory storageBuf keyAlias totalLen turns offset).Within
        (entriesArea storageBuf totalLen) ∧
      ∀ found, (findLoop memory storageBuf keyAlias totalLen turns offset).result = .ok found →
        Entry memory storageBuf totalLen found ∧
          Area.bytes memory ⟨storageBuf.area.addr + found + sizeofKeyInfo, keyAlias.length⟩ =
            keyAlias := by
  induction turns generalizing offset with
  | zero => exact ⟨Reading.within_fail, fun _ no => by cases no⟩
  | succ turns hypothesis =>
    obtain ⟨within, valid⟩ := @entryAt_spec _ memory storageBuf totalLen offset behind
    constructor
    · refine Reading.within_bind.mpr ⟨within, fun keyInfo read => ?_⟩
      obtain ⟨rfl, entry⟩ := valid keyInfo read
      have rest := (hypothesis (entry.nextOffset_eq room).2).1
      split_ifs with same
      · refine Reading.within_bind.mpr ⟨Reading.within_read.mpr ?_, fun stored _ => ?_⟩
        · rw [← same]
          exact (alias_inside entry.valid _).trans entry.area_inside
        · split_ifs
          · exact Reading.within_pure
          · exact rest
      · exact rest
    · intro found done
      obtain ⟨keyInfo, read, done⟩ := Reading.result_bind.mp done
      obtain ⟨rfl, entry⟩ := valid keyInfo read
      have rest := (hypothesis (entry.nextOffset_eq room).2).2
      split_ifs at done with same
      · obtain ⟨stored, kept, done⟩ := Reading.result_bind.mp done
        obtain rfl := ok.inj kept
        split_ifs at done with equal
        · obtain rfl := Reading.result_pure.mp done
          exact ⟨entry, equal.symm⟩
        · exact rest found done
      · exact rest found done

/-- What is read for an element of the list is in the entry, and the element is about the entry. -/
theorem getKeyInfoList_spec {keyInfoList : HksKeyInfo}
    (entry : Entry memory storageBuf totalLen offset) (room : totalLen ≤ storageBuf.area.size) :
    (getKeyInfoList memory heap keyInfoList offset ⟨storageBuf.area.addr + offset,
        (keyInfoAt memory (storageBuf.area.addr + offset)).keyInfoLen.toNat⟩).Within
        (entriesArea storageBuf totalLen) ∧
      ∀ listed, (getKeyInfoList memory heap keyInfoList offset ⟨storageBuf.area.addr + offset,
          (keyInfoAt memory (storageBuf.area.addr + offset)).keyInfoLen.toNat⟩).result =
            .ok listed →
        listed.offset = offset ∧ listed.keyAlias = Area.bytes memory
          ⟨storageBuf.area.addr + offset + sizeofKeyInfo,
            (keyInfoAt memory (storageBuf.area.addr + offset)).aliasSize.toNat⟩ := by
  have inside := entry.inside
  have sum := entry.valid.sum
  have space := storageBuf.space
  constructor
  · refine Reading.within_bind.mpr ⟨within_readKeyInfo.mpr ?_, fun keyInfo read => ?_⟩
    · refine Area.Inside.trans ?_ entry.area_inside
      simp only [Area.Inside, Area.end_]
      omega
    · obtain rfl := ok.inj read
      split
      · exact Reading.within_fail
      split
      · refine Reading.within_bind.mpr ⟨Reading.within_read.mpr
          ((alias_inside entry.valid _).trans entry.area_inside), fun keyAlias _ => ?_⟩
        refine Reading.within_bind.mpr ⟨fun area member => ?_, fun paramSet _ => ?_⟩
        · have inner := within_translateKeyInfoBlobToParamSet heap memory _ entry.valid (by
            simp only [Area.end_] at space
            omega)
          exact (inner area member).trans entry.area_inside
        · dsimp only
          split_ifs
          · exact Reading.within_fail
          · exact Reading.within_fail
          · exact Reading.within_pure
      · exact Reading.within_fail
  · intro listed done
    obtain ⟨keyInfo, read, done⟩ := Reading.result_bind.mp done
    obtain rfl := ok.inj read
    split at done
    · cases done
    split at done
    · obtain ⟨keyAlias, kept, done⟩ := Reading.result_bind.mp done
      obtain rfl := ok.inj kept
      obtain ⟨paramSet, -, done⟩ := Reading.result_bind.mp done
      dsimp only at done
      split_ifs at done
      · cases done
      · cases done
      · obtain rfl := Reading.result_pure.mp done
        exact ⟨rfl, rfl⟩
    · cases done

/-- The list is made of entries only, and every element is about one. -/
theorem listLoop_spec {keyInfoList : List HksKeyInfo} {turns : Nat}
    (behind : sizeofHeaderInfo ≤ offset) (room : totalLen ≤ storageBuf.area.size) :
    (listLoop memory storageBuf heap totalLen turns keyInfoList offset).Within
        (entriesArea storageBuf totalLen) ∧
      ∀ list, (listLoop memory storageBuf heap totalLen turns keyInfoList offset).result =
          .ok list →
        list.length = turns ∧
          ∀ listed ∈ list, Entry memory storageBuf totalLen listed.offset := by
  induction turns generalizing offset keyInfoList with
  | zero =>
    refine ⟨Reading.within_pure, fun list done => ?_⟩
    obtain rfl := Reading.result_pure.mp done
    exact ⟨rfl, forall_mem_nil _⟩
  | succ turns hypothesis =>
    cases keyInfoList with
    | nil => exact ⟨Reading.within_fail, fun _ no => by cases no⟩
    | cons element rest =>
      obtain ⟨within, valid⟩ := @entryAt_spec _ memory storageBuf totalLen offset behind
      constructor
      · refine Reading.within_bind.mpr ⟨within, fun keyInfo read => ?_⟩
        obtain ⟨rfl, entry⟩ := valid keyInfo read
        refine Reading.within_bind.mpr ⟨(getKeyInfoList_spec entry room).1, fun listed _ => ?_⟩
        exact Reading.within_bind.mpr ⟨(hypothesis (entry.nextOffset_eq room).2).1,
          fun _ _ => Reading.within_pure⟩
      · intro list done
        obtain ⟨keyInfo, read, done⟩ := Reading.result_bind.mp done
        obtain ⟨rfl, entry⟩ := valid keyInfo read
        obtain ⟨listed, one, done⟩ := Reading.result_bind.mp done
        obtain ⟨others, more, done⟩ := Reading.result_bind.mp done
        obtain rfl := Reading.result_pure.mp done
        obtain ⟨same, -⟩ := (getKeyInfoList_spec entry room).2 listed one
        obtain ⟨length, all⟩ := (hypothesis (entry.nextOffset_eq room).2).2 others more
        exact ⟨congrArg (· + 1) length, forall_mem_cons.mpr ⟨same ▸ entry, all⟩⟩

variable (memory storageBuf heap)

theorem readKeyCount_all : (readKeyCount memory storageBuf).All (MayRead memory storageBuf) :=
  Reading.all_bind.mpr ⟨fun _ member => .inl (mem_singleton.mp member),
    fun _ _ _ no => absurd no not_mem_nil⟩

theorem readTotalLen_all : (readTotalLen memory storageBuf).All (MayRead memory storageBuf) :=
  Reading.all_bind.mpr ⟨fun _ member => .inr (.inl (mem_singleton.mp member)),
    fun _ _ _ no => absurd no not_mem_nil⟩

theorem all_fail {allowed : Area → Prop} {Value : Type} (failure : Failure) :
    (Reading.fail failure : Reading Failure Value).All allowed :=
  fun _ no => absurd no not_mem_nil

/-- The search for an alias. -/
theorem getKeyOffsetByKeyAlias_spec (keyAlias : Bytes) :
    (getKeyOffsetByKeyAlias memory storageBuf keyAlias).All (MayRead memory storageBuf) ∧
      ∀ offset, (getKeyOffsetByKeyAlias memory storageBuf keyAlias).result = .ok offset →
        totalLenAt memory storageBuf ≤ storageBuf.area.size ∧
          Entry memory storageBuf (totalLenAt memory storageBuf) offset := by
  unfold getKeyOffsetByKeyAlias
  split_ifs
  · exact ⟨all_fail _, fun _ no => by cases no⟩
  · constructor
    · refine Reading.all_bind.mpr ⟨readKeyCount_all memory storageBuf, fun keyCount _ => ?_⟩
      refine Reading.all_bind.mpr ⟨readTotalLen_all memory storageBuf, fun totalLen read => ?_⟩
      obtain rfl := ok.inj read
      split
      · exact all_fail _
      split
      · exact all_fail _
      · rename_i room
        have fits : totalLenAt memory storageBuf ≤ storageBuf.area.size := Nat.le_of_not_lt room
        exact fun area member => .inr (.inr ⟨fits, (findLoop_spec le_rfl fits).1 area member⟩)
    · intro offset done
      obtain ⟨keyCount, -, done⟩ := Reading.result_bind.mp done
      obtain ⟨totalLen, read, done⟩ := Reading.result_bind.mp done
      obtain rfl := ok.inj read
      split at done
      · cases done
      split at done
      · cases done
      · rename_i room
        have fits : totalLenAt memory storageBuf ≤ storageBuf.area.size := Nat.le_of_not_lt room
        exact ⟨fits, ((findLoop_spec le_rfl fits).2 offset done).1⟩

/-- What `GetAndCheckKeyCount` has checked when there are keys. -/
theorem getAndCheckKeyCount_spec (inputCount : Nat) :
    (getAndCheckKeyCount memory storageBuf inputCount).All (MayRead memory storageBuf) ∧
      ∀ keyCount, (getAndCheckKeyCount memory storageBuf inputCount).result = .ok keyCount →
        keyCount ≠ 0 → totalLenAt memory storageBuf ≤ storageBuf.area.size ∧
          keyCount ≤ inputCount := by
  unfold getAndCheckKeyCount
  split_ifs
  · exact ⟨all_fail _, fun _ no => by cases no⟩
  · constructor
    · refine Reading.all_bind.mpr ⟨readKeyCount_all memory storageBuf, fun keyCount _ => ?_⟩
      split
      · exact fun _ no => absurd no not_mem_nil
      refine Reading.all_bind.mpr ⟨readTotalLen_all memory storageBuf, fun totalLen _ => ?_⟩
      split_ifs
      · exact all_fail _
      · exact all_fail _
      · exact fun _ no => absurd no not_mem_nil
    · intro keyCount done some_
      obtain ⟨count, -, done⟩ := Reading.result_bind.mp done
      split at done
      · exact absurd (Reading.result_pure.mp done).symm some_
      obtain ⟨totalLen, read, done⟩ := Reading.result_bind.mp done
      obtain rfl := ok.inj read
      split at done
      · cases done
      split at done
      · cases done
      · rename_i room enough
        obtain rfl := Reading.result_pure.mp done
        exact ⟨Nat.le_of_not_lt room, Nat.le_of_not_lt enough⟩

/-- The list of all keys. -/
theorem hksStoreGetKeyInfoList_spec (keyInfoList : List HksKeyInfo) :
    (hksStoreGetKeyInfoList memory storageBuf heap keyInfoList).All (MayRead memory storageBuf) ∧
      ∀ list, (hksStoreGetKeyInfoList memory storageBuf heap keyInfoList).result = .ok list →
        ∀ listed ∈ list, totalLenAt memory storageBuf ≤ storageBuf.area.size ∧
          Entry memory storageBuf (totalLenAt memory storageBuf) listed.offset := by
  obtain ⟨all, checked⟩ := getAndCheckKeyCount_spec memory storageBuf keyInfoList.length
  constructor
  · refine Reading.all_bind.mpr ⟨all, fun keyCount counted => ?_⟩
    refine Reading.all_bind.mpr ⟨readTotalLen_all memory storageBuf, fun totalLen read => ?_⟩
    obtain rfl := ok.inj read
    by_cases none_ : keyCount = 0
    · subst none_
      exact fun _ no => absurd no not_mem_nil
    · have fits := (checked keyCount counted none_).1
      exact fun area member => .inr (.inr ⟨fits, (listLoop_spec le_rfl fits).1 area member⟩)
  · intro list done listed member
    obtain ⟨keyCount, counted, done⟩ := Reading.result_bind.mp done
    obtain ⟨totalLen, read, done⟩ := Reading.result_bind.mp done
    obtain rfl := ok.inj read
    by_cases none_ : keyCount = 0
    · subst none_
      obtain rfl := Reading.result_pure.mp done
      exact absurd member not_mem_nil
    · have fits := (checked keyCount counted none_).1
      exact ⟨fits, ((listLoop_spec le_rfl fits).2 list done).2 listed member⟩

/-- An entry lies wholly inside of the image. -/
def Inside (totalLen offset : Nat) : Prop :=
  totalLen ≤ storageBuf.area.size ∧ Entry memory storageBuf totalLen offset ∧
    (⟨storageBuf.area.addr + offset,
      (keyInfoAt memory (storageBuf.area.addr + offset)).keyInfoLen.toNat⟩ : Area).Inside
        storageBuf.area

theorem inside_of_entry (room : totalLen ≤ storageBuf.area.size)
    (entry : Entry memory storageBuf totalLen offset) :
    Inside memory storageBuf totalLen offset := by
  have inside := entry.inside
  refine ⟨room, entry, ?_⟩
  simp only [Area.Inside, Area.end_]
  omega

/-- For every content of the image, both walks read two fields of the header, and behind it only
what is before a total length that is no more than the size of the image; and every offset that they
report is that of an entry wholly inside, whose alias, auth id and key add up to its length. -/
theorem walks_contained : (∀ keyAlias : Bytes,
      (getKeyOffsetByKeyAlias memory storageBuf keyAlias).All (MayRead memory storageBuf) ∧
        ∀ offset, (getKeyOffsetByKeyAlias memory storageBuf keyAlias).result = .ok offset →
          Inside memory storageBuf (totalLenAt memory storageBuf) offset) ∧
    ∀ keyInfoList : List HksKeyInfo, (hksStoreGetKeyInfoList memory storageBuf heap keyInfoList).All
          (MayRead memory storageBuf) ∧
        ∀ list, (hksStoreGetKeyInfoList memory storageBuf heap keyInfoList).result = .ok list →
          ∀ listed ∈ list,
            Inside memory storageBuf (totalLenAt memory storageBuf) listed.offset := by
  refine ⟨fun keyAlias => ?_, fun keyInfoList => ?_⟩
  · obtain ⟨reads, found⟩ := getKeyOffsetByKeyAlias_spec memory storageBuf keyAlias
    refine ⟨reads, fun offset done => ?_⟩
    obtain ⟨room, entry⟩ := found offset done
    exact inside_of_entry memory storageBuf room entry
  · obtain ⟨reads, found⟩ := hksStoreGetKeyInfoList_spec memory storageBuf heap keyInfoList
    refine ⟨reads, fun list done listed member => ?_⟩
    obtain ⟨room, entry⟩ := found list done listed member
    exact inside_of_entry memory storageBuf room entry

end Walks

/-- An image of 92 bytes whose header says that there is one key and that it has no byte. -/
def sampleBuf : StorageBuf .ilp32 := ⟨⟨0x1000, 92⟩, by decide, by decide⟩

def sampleMemory : Memory := fun address => if address = 0x1002 then 1 else 0

/-- The header is read, although the total length is zero. -/
theorem header_beyond_totalLen : sizeofHeaderInfo ≤ sampleBuf.area.size ∧
      ¬∀ area ∈ (getKeyOffsetByKeyAlias sampleMemory sampleBuf [0x61]).reads,
        area.end_ ≤ sampleBuf.area.addr + totalLenAt sampleMemory sampleBuf := by
  decide

end TowerSafe.KeyScan
