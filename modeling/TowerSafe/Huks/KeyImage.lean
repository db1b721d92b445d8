/-
This file embeds the image of `hks_storage_lite.c`: a header with a MAC, and the blobs of the keys
behind each other in one buffer, which a delete closes up and a store may replace by a larger one.
The image refines a map from aliases to blobs.
-/

import TowerSafe.Library.Bytes
import TowerSafe.Library.Transition

namespace TowerSafe.KeyImage

open Library Option
open List

/-! ### The image -/

def maxStorageSize : Nat := 5120

def bufSizeAddendPerTime : Nat := 1024

/-- `sizeof(struct HksStoreHeaderInfo)`. -/
def sizeofHeaderInfo : Nat := 92

/-- `sizeof(struct HksStoreKeyInfo)`. -/
def sizeofKeyInfo : Nat := 40

/-- `HKS_MAX_KEY_ALIAS_LEN` and `HKS_MAX_KEY_AUTH_ID_LEN`. -/
def maxKeyAliasLen : Nat := 64

/-- `HKS_MAX_KEY_MATERIAL_LEN`: the public key info, three times 512 bytes and a tag. -/
def maxKeyMaterialLen : Nat := 20 + 512 * 3 + 16

/-- The part of a header that its MAC is about. -/
structure HeaderStart where
  version : BitVec 16
  keyCount : BitVec 16
  totalLen : BitVec 32
  sealingAlg : BitVec 32
  salt : BitVec 128
  deriving DecidableEq

structure HeaderInfo where
  start : HeaderStart
  hmac : BitVec 512
  deriving DecidableEq

def HeaderInfo.bytes (head : HeaderInfo) : Bytes :=
  .ofNat 2 head.start.version.toNat ++ (.ofNat 2 head.start.keyCount.toNat ++
    (.ofNat 4 head.start.totalLen.toNat ++ (.ofNat 4 head.start.sealingAlg.toNat ++
      (.ofNat 16 head.start.salt.toNat ++ .ofNat 64 head.hmac.toNat))))

/-- What the image uses of a `struct HksStoreKeyInfo`. -/
structure KeyInfo where
  keyInfoLen : Nat
  keySize : Nat
  aliasSize : Nat
  authIdSize : Nat
  deriving DecidableEq

def KeyInfo.ofBytes (bytes : Bytes) : KeyInfo where
  keyInfoLen := Bytes.toNat (bytes.take 2)
  keySize := Bytes.toNat ((bytes.drop 2).take 2)
  aliasSize := Bytes.toNat ((bytes.drop 38).take 1)
  authIdSize := Bytes.toNat ((bytes.drop 39).take 1)

def isKeyInfoLenInvalid (keyInfo : KeyInfo) : Bool :=
  decide (maxKeyAliasLen < keyInfo.aliasSize) || decide (keyInfo.aliasSize = 0) ||
    decide (maxKeyMaterialLen < keyInfo.keySize) || decide (keyInfo.keySize = 0) ||
    decide (maxKeyAliasLen < keyInfo.authIdSize) ||
    decide (keyInfo.keyInfoLen ≠
      sizeofKeyInfo + keyInfo.aliasSize + keyInfo.authIdSize + keyInfo.keySize)

/-- `g_storageImageBuffer` while it has data: the header, and the bytes behind it. -/
structure Image where
  head : HeaderInfo
  rest : Bytes
  deriving DecidableEq

namespace Image

variable (image : Image)

def size : Nat :=
  sizeofHeaderInfo + image.rest.length

def from_ (offset : Nat) : Bytes :=
  image.rest.drop (offset - sizeofHeaderInfo)

/-- Bytes are written at an offset behind the header. -/
def write (offset : Nat) (source : Bytes) : Image :=
  { image with rest := image.rest.overwrite (offset - sizeofHeaderInfo) source }

/-- `memset_s` to zero. -/
def clear (offset count : Nat) : Image :=
  image.write offset (List.replicate count 0)

end Image

/-- The return values other than `HKS_SUCCESS`. -/
inductive Failure where
  | invalidArgument
  | mallocFail
  | insufficientMemory
  | notExist
  | invalidKeyFile
  | storageFailure
  | openFileFail
  | readFileFail
  | writeFileFail
  | access (code : Nat)
  deriving DecidableEq

/-- What happens to the allocations, to the MAC and to the file in a call:
`RefreshKeyInfoHeaderHmac` copies the header, `CalcHeaderMac` what it is about, and makes a set of
parameters. -/
structure Events where
  headerCopy : Bool
  srcData : Bool
  paramSet : Option Failure
  calcMac : Option Failure
  newBuffer : Bool
  /-- A write that fails, and what it leaves of the file. -/
  fileWrite : Option (Failure × Option Bytes)
  deriving DecidableEq

def Events.good : Events :=
  ⟨true, true, none, none, true, none⟩

/-- What makes `RefreshKeyInfoHeaderHmac` fail. -/
def Events.macFailure (events : Events) : Option Failure :=
  if events.headerCopy = false ∨ events.srcData = false then some .mallocFail
  else events.paramSet.or events.calcMac

section Calls

variable (mac : HeaderStart → BitVec 512)

def calcHeaderMac (start : HeaderStart) (events : Events) : Except Failure (BitVec 512) :=
  if events.srcData = false then .error .mallocFail
  else
    match events.paramSet with
    | some failure => .error failure
    | none =>
        match events.calcMac with
        | some failure => .error failure
        | none => .ok (mac start)

def refreshKeyInfoHeaderHmac (start : HeaderStart) (events : Events) :
    Except Failure HeaderInfo :=
  if events.headerCopy = false then .error .mallocFail
  else (calcHeaderMac mac start events).map fun hmac => ⟨start, hmac⟩

/-- What `InitImageBuffer` puts into the header. -/
def initHeader (salt : BitVec 128) : HeaderStart :=
  ⟨1, 0, BitVec.ofNat 32 sizeofHeaderInfo, 0xFEDCBA98, salt⟩

/-- `InitImageBuffer` in a buffer for a header, with the salt that is drawn. -/
def initImageBuffer (salt : Except Failure (BitVec 128)) (events : Events) :
    Except Failure Image :=
  match salt with
  | .error failure => .error failure
  | .ok salt =>
      (calcHeaderMac mac (initHeader salt) events).map fun hmac => ⟨⟨initHeader salt, hmac⟩, []⟩

/-- The loop of `GetKeyOffsetByKeyAlias`, with the number of turns that are left. -/
def findKey (image : Image) (keyAlias : Bytes) : Nat → Nat → Except Failure Nat
  | 0, _ => .error .notExist
  | turns + 1, offset =>
      let totalLen := image.head.start.totalLen.toNat
      if totalLen < offset ∨ totalLen - offset < sizeofKeyInfo then .error .invalidKeyFile
      else
        let tmpBuf := image.from_ offset
        let keyInfo := KeyInfo.ofBytes tmpBuf
        if isKeyInfoLenInvalid keyInfo ∨ totalLen - offset < keyInfo.keyInfoLen then
          .error .invalidKeyFile
        else if keyInfo.aliasSize = keyAlias.length ∧
            keyAlias = (tmpBuf.drop sizeofKeyInfo).take keyAlias.length then
          .ok offset
        else findKey image keyAlias turns (offset + keyInfo.keyInfoLen)

def getKeyOffsetByKeyAlias (image : Image) (keyAlias : Bytes) : Except Failure Nat :=
  if image.head.start.keyCount = 0 then .error .notExist
  else if image.size < image.head.start.totalLen.toNat then .error .invalidKeyFile
  else findKey image keyAlias image.head.start.keyCount.toNat sizeofHeaderInfo

def isAdditionOverflow (one other : BitVec 32) : Bool :=
  2 ^ 32 - 1 - one.toNat < other.toNat

def getLenAfterAddKey (keyBlob : Bytes) (totalLen : BitVec 32) : Except Failure (BitVec 32) :=
  let size := BitVec.ofNat 32 keyBlob.length
  if isAdditionOverflow totalLen size then .error .insufficientMemory
  else if maxStorageSize < (totalLen + size).toNat then .error .storageFailure
  else .ok (totalLen + size)

def adjustImageBuffer (image : Image) (totalLenAdded : BitVec 32) (keyBlob : Bytes)
    (events : Events) : Image × Option Failure :=
  let totalLen := image.head.start.totalLen.toNat
  let newBufLen := image.size + max keyBlob.length bufSizeAddendPerTime
  if events.newBuffer = false then (image, some .mallocFail)
  else
    let buf : Image := ⟨image.head, List.replicate (newBufLen - sizeofHeaderInfo) 0⟩
    let buf := buf.write sizeofHeaderInfo (image.rest.take (totalLen - sizeofHeaderInfo))
    let buf := buf.write totalLen keyBlob
    ({ buf with head := { buf.head with start := { buf.head.start with
        totalLen := totalLenAdded
        keyCount := buf.head.start.keyCount + 1 } } }, none)

def appendNewKey (image : Image) (keyBlob : Bytes) (events : Events) : Image × Option Failure :=
  match getLenAfterAddKey keyBlob image.head.start.totalLen with
  | .error failure => (image, some failure)
  | .ok totalLenAdded =>
      if totalLenAdded.toNat ≤ image.size then
        let added := image.write image.head.start.totalLen.toNat keyBlob
        ({ added with head := { added.head with start := { added.head.start with
            totalLen := totalLenAdded
            keyCount := added.head.start.keyCount + 1 } } }, none)
      else adjustImageBuffer image totalLenAdded keyBlob events

/-- What `DeleteKey` does to the bytes: those of the key are cleared, and those behind them moved to
their place, so that as many are clear at the end. -/
def closeUp (image : Image) (keyOffset keyInfoLen : Nat) : Image :=
  let totalLen := image.head.start.totalLen.toNat
  let nextKeyOffset := keyOffset + keyInfoLen
  let cleared := image.clear keyOffset keyInfoLen
  if nextKeyOffset < totalLen then
    (cleared.write keyOffset
      ((cleared.from_ nextKeyOffset).take (totalLen - nextKeyOffset))).clear
        (totalLen - keyInfoLen) keyInfoLen
  else cleared

def deleteKey (image : Image) (keyOffset : Nat) : Image × Option Failure :=
  let totalLen := image.head.start.totalLen.toNat
  let keyInfoLen := (KeyInfo.ofBytes (image.from_ keyOffset)).keyInfoLen
  if totalLen < keyOffset + keyInfoLen then (image, some .invalidKeyFile)
  else
    let closed := closeUp image keyOffset keyInfoLen
    ({ closed with head := { closed.head with start := { closed.head.start with
        keyCount := closed.head.start.keyCount - 1
        totalLen := closed.head.start.totalLen - BitVec.ofNat 32 keyInfoLen } } }, none)

/-- The start of the header that `StoreKeyBlob` makes before anything is changed. -/
def newStart (image : Image) (needDeleteKey : Bool) (offset : Nat) (keyBlob : Bytes) :
    Except Failure HeaderStart :=
  let start := image.head.start
  let keyInfoLen := (KeyInfo.ofBytes (image.from_ offset)).keyInfoLen
  if needDeleteKey then
    (getLenAfterAddKey keyBlob (start.totalLen - BitVec.ofNat 32 keyInfoLen)).map fun totalLen =>
      { start with totalLen := totalLen }
  else
    (getLenAfterAddKey keyBlob start.totalLen).map fun totalLen =>
      { start with keyCount := start.keyCount + 1, totalLen := totalLen }

/-- The third to the fifth step of `StoreKeyBlob`: the old key goes, the new one is appended, and
the header is put in the place of the one there is. -/
def replaceKey (image : Image) (needDeleteKey : Bool) (offset : Nat) (keyBlob : Bytes)
    (head : HeaderInfo) (events : Events) : Image × Option Failure :=
  let deleted := if needDeleteKey then deleteKey image offset else (image, none)
  match deleted with
  | (image, some failure) => (image, some failure)
  | (image, none) =>
      match appendNewKey image keyBlob events with
      | (image, some failure) => (image, some failure)
      | (image, none) => ({ image with head := head }, none)

def storeKeyBlob (image : Image) (needDeleteKey : Bool) (offset : Nat) (keyBlob : Bytes)
    (events : Events) : Image × Option Failure :=
  match newStart image needDeleteKey offset keyBlob with
  | .error failure => (image, some failure)
  | .ok start =>
      match refreshKeyInfoHeaderHmac mac start events with
      | .error failure => (image, some failure)
      | .ok head => replaceKey image needDeleteKey offset keyBlob head events

/-- The image, when the buffer is not freed, and the file it is kept in, if there is one. -/
structure KeyStore where
  image : Option Image
  file : Option Bytes
  deriving DecidableEq

/-- `HksFileWrite` of the image, up to its total length. -/
def hksFileWrite (image : Image) (events : Events) :
    Option Bytes × Option Failure :=
  match events.fileWrite with
  | some (failure, left) => (left, some failure)
  | none =>
      (some (image.head.bytes ++
        image.rest.take (image.head.start.totalLen.toNat - sizeofHeaderInfo)), none)

/-- The first two steps of `HksStoreKeyBlob`: the key is stored in the image. -/
def storeInImage (image : Image) (keyAlias keyBlob : Bytes) (events : Events) :
    Image × Option Failure :=
  match getKeyOffsetByKeyAlias image keyAlias with
  | .ok offset => storeKeyBlob mac image true offset keyBlob events
  | .error .notExist => storeKeyBlob mac image false 0 keyBlob events
  | .error failure => (image, some failure)

/-- `HksStoreKeyBlob`, of a key. Without a buffer its size is 0. -/
def hksStoreKeyBlob (store : KeyStore) (keyAlias keyBlob : Bytes) (events : Events) :
    KeyStore × Option Failure :=
  match store.image with
  | none => (store, some .invalidKeyFile)
  | some image =>
      match storeInImage mac image keyAlias keyBlob events with
      | (image, some failure) => ({ store with image := some image }, some failure)
      | (image, none) =>
          let written := hksFileWrite image events
          (⟨some image, written.1⟩, written.2)

def hksStoreDeleteKeyBlob (store : KeyStore) (keyAlias : Bytes) (events : Events) :
    KeyStore × Option Failure :=
  match store.image with
  | none => (store, some .invalidKeyFile)
  | some image =>
      match getKeyOffsetByKeyAlias image keyAlias with
      | .error failure => (store, some failure)
      | .ok offset =>
          let start := image.head.start
          let keyInfoLen := (KeyInfo.ofBytes (image.from_ offset)).keyInfoLen
          let start := { start with
            totalLen := start.totalLen - BitVec.ofNat 32 keyInfoLen
            keyCount := start.keyCount - 1 }
          match refreshKeyInfoHeaderHmac mac start events with
          | .error failure => (store, some failure)
          | .ok head =>
              match deleteKey image offset with
              | (image, some failure) => ({ store with image := some image }, some failure)
              | (image, none) =>
                  let image := { image with head := head }
                  let written := hksFileWrite image events
                  (⟨some image, written.1⟩, written.2)

end Calls

/-- `HksStoreGetKeyBlob`, of a key, with or without memory for the blob. -/
def hksStoreGetKeyBlob (image : Image) (keyAlias : Bytes) (memory : Bool) :
    Except Failure Bytes :=
  match getKeyOffsetByKeyAlias image keyAlias with
  | .error failure => .error failure
  | .ok offset =>
      let tmpBuf := image.from_ offset
      if memory = false then .error .mallocFail
      else .ok (tmpBuf.take (KeyInfo.ofBytes tmpBuf).keyInfoLen)

/-! ### Key blobs -/

/-- A key blob has the length it says, and lengths that `HksIsKeyInfoLenInvalid` accepts. -/
structure WellFormed (keyBlob : Bytes) : Prop where
  length : (KeyInfo.ofBytes keyBlob).keyInfoLen = keyBlob.length
  valid : isKeyInfoLenInvalid (KeyInfo.ofBytes keyBlob) = false

instance (keyBlob : Bytes) : Decidable (WellFormed keyBlob) :=
  decidable_of_iff ((KeyInfo.ofBytes keyBlob).keyInfoLen = keyBlob.length ∧
    isKeyInfoLenInvalid (KeyInfo.ofBytes keyBlob) = false)
    ⟨fun both => ⟨both.1, both.2⟩, fun formed => ⟨formed.length, formed.valid⟩⟩

def aliasOf (keyBlob : Bytes) : Bytes :=
  (keyBlob.drop sizeofKeyInfo).take (KeyInfo.ofBytes keyBlob).aliasSize

section Blobs

variable {keyBlob : Bytes}

theorem KeyInfo.ofBytes_append (long : sizeofKeyInfo ≤ keyBlob.length) (more : Bytes) :
    KeyInfo.ofBytes (keyBlob ++ more) = KeyInfo.ofBytes keyBlob := by
  unfold sizeofKeyInfo at long
  have part (start count : Nat) (inside : start + count ≤ 40) :
      ((keyBlob ++ more).drop start).take count = (keyBlob.drop start).take count := by
    rw [drop_append_of_le_length (by omega),
      take_append_of_le_length (by rw [length_drop]; omega)]
  have first : (keyBlob ++ more).take 2 = keyBlob.take 2 := take_append_of_le_length (by omega)
  simp only [KeyInfo.ofBytes, first, part 2 2 (by decide), part 38 1 (by decide),
    part 39 1 (by decide)]

namespace WellFormed

variable (formed : WellFormed keyBlob)

include formed

theorem bounds : 0 < (KeyInfo.ofBytes keyBlob).aliasSize ∧ keyBlob.length ≤ 1740 ∧
      sizeofKeyInfo + (KeyInfo.ofBytes keyBlob).aliasSize < keyBlob.length := by
  have valid := formed.valid
  have length := formed.length
  simp only [isKeyInfoLenInvalid, Bool.or_eq_false_iff, decide_eq_false_iff_not, ne_eq,
    not_not] at valid
  unfold maxKeyAliasLen maxKeyMaterialLen sizeofKeyInfo at *
  omega

theorem long : sizeofKeyInfo < keyBlob.length := by
  have bounds := formed.bounds
  omega

theorem length_aliasOf : (aliasOf keyBlob).length = (KeyInfo.ofBytes keyBlob).aliasSize := by
  have bounds := formed.bounds
  rw [aliasOf, length_take, length_drop]
  omega

end WellFormed

end Blobs

/-! ### Blobs behind each other -/

/-- The image has some key blobs behind its header. -/
structure Packed (image : Image) (blobs : List Bytes) : Prop where
  rest : ∃ spare, image.rest = blobs.flatten ++ spare
  totalLen : image.head.start.totalLen.toNat = sizeofHeaderInfo + blobs.flatten.length
  keyCount : image.head.start.keyCount.toNat = blobs.length
  short : image.head.start.totalLen.toNat ≤ maxStorageSize
  formed : ∀ keyBlob ∈ blobs, WellFormed keyBlob
  unique : (blobs.map aliasOf).Nodup

theorem Image.from_add (image : Image) {offset : Nat} (behind : sizeofHeaderInfo ≤ offset)
    (count : Nat) : image.from_ (offset + count) = (image.from_ offset).drop count := by
  rw [Image.from_, Image.from_, drop_drop, Nat.sub_add_comm behind]

variable {image : Image}

theorem findKey_cons {keyAlias keyBlob more : Bytes} {offset turns : Nat}
    (formed : WellFormed keyBlob) (here : image.from_ offset = keyBlob ++ more)
    (inside : offset + keyBlob.length ≤ image.head.start.totalLen.toNat) :
    findKey image keyAlias (turns + 1) offset = if aliasOf keyBlob = keyAlias then .ok offset
      else findKey image keyAlias turns (offset + keyBlob.length) := by
  have bounds := formed.bounds
  have long := formed.long
  have same : KeyInfo.ofBytes (keyBlob ++ more) = KeyInfo.ofBytes keyBlob :=
    KeyInfo.ofBytes_append (Nat.le_of_lt long) more
  rw [findKey]
  dsimp only
  rw [here, same, if_neg (by omega), formed.length, formed.valid,
    if_neg (by rintro (invalid | past) <;> [cases invalid; omega])]
  refine if_congr ?_ rfl rfl
  have size := formed.length_aliasOf
  have cut : aliasOf keyBlob =
      ((keyBlob ++ more).drop sizeofKeyInfo).take (KeyInfo.ofBytes keyBlob).aliasSize := by
    rw [aliasOf, drop_append_of_le_length (by omega),
      take_append_of_le_length (by rw [length_drop]; omega)]
  constructor
  · rintro ⟨length, equal⟩
    rw [cut, length, ← equal]
  · rintro rfl
    exact ⟨size.symm, by rw [size, ← cut]⟩

theorem findKey_append {keyAlias more : Bytes} (turns : Nat) :
    ∀ {before : List Bytes} {offset : Nat}, (∀ keyBlob ∈ before, WellFormed keyBlob) →
      (∀ keyBlob ∈ before, aliasOf keyBlob ≠ keyAlias) → sizeofHeaderInfo ≤ offset →
      image.from_ offset = before.flatten ++ more →
      offset + before.flatten.length ≤ image.head.start.totalLen.toNat →
      findKey image keyAlias (before.length + turns) offset =
        findKey image keyAlias turns (offset + before.flatten.length)
  | [], offset, _, _, _, _, _ => by simp
  | keyBlob :: before, offset, formed, others, behind, here, inside => by
      rw [flatten_cons, append_assoc] at here
      rw [flatten_cons, length_append] at inside ⊢
      have next : image.from_ (offset + keyBlob.length) = before.flatten ++ more := by
        rw [image.from_add behind, here, drop_left]
      have turns_ : (keyBlob :: before).length + turns = before.length + turns + 1 := by
        rw [length_cons]
        omega
      rw [turns_, findKey_cons (formed keyBlob mem_cons_self) here (by omega),
        if_neg (others keyBlob mem_cons_self),
        findKey_append _ (fun one member => formed one (mem_cons_of_mem _ member))
          (fun one member => others one (mem_cons_of_mem _ member)) (by omega) next
          (by omega), Nat.add_assoc]

theorem closeUp_eq {before part after spare : Bytes}
    (rest : image.rest = before ++ (part ++ (after ++ spare)))
    (totalLen : image.head.start.totalLen.toNat =
      sizeofHeaderInfo + (before.length + (part.length + after.length))) :
    closeUp image (sizeofHeaderInfo + before.length) part.length =
      { image with rest := before ++ (after ++ (List.replicate part.length 0 ++ spare)) } := by
  have zeros : (List.replicate part.length (0 : BitVec 8)).length = part.length :=
    length_replicate
  have place : sizeofHeaderInfo + before.length - sizeofHeaderInfo = before.length :=
    Nat.add_sub_cancel_left _ _
  have cleared : image.clear (sizeofHeaderInfo + before.length) part.length =
      { image with rest := before ++ (List.replicate part.length 0 ++ (after ++ spare)) } := by
    rw [Image.clear, Image.write, place, rest, Bytes.overwrite_append _ zeros]
  rw [closeUp, cleared, totalLen]
  split
  · next more =>
    have moved : List.take (sizeofHeaderInfo + (before.length + (part.length + after.length)) -
        (sizeofHeaderInfo + before.length + part.length))
        (Image.from_ { image with rest := before ++ (List.replicate part.length 0 ++
          (after ++ spare)) } (sizeofHeaderInfo + before.length + part.length)) = after := by
      rw [Image.from_add _ (Nat.le_add_right _ _), Image.from_, place, drop_left,
        drop_left' zeros]
      exact take_left' (by omega)
    have halves : List.replicate part.length (0 : BitVec 8) ++ (after ++ spare) =
        (List.replicate part.length 0 ++ after).take after.length ++
          ((List.replicate part.length 0 ++ after).drop after.length ++ spare) := by
      rw [← append_assoc, ← append_assoc, take_append_drop]
    have last : sizeofHeaderInfo + (before.length + (part.length + after.length)) - part.length -
        sizeofHeaderInfo = (before ++ after).length := by
      rw [length_append]
      omega
    rw [moved, Image.write, Image.clear, Image.write, place, last]
    rw [halves, Bytes.overwrite_append _ (by simp), ← append_assoc before after,
      Bytes.overwrite_append _ (by simp)]
    simp only [append_assoc]
  · next more =>
    have none_ : after = [] := length_eq_zero_iff.mp (by omega)
    rw [none_, nil_append, nil_append]

theorem Image.write_end {head : HeaderInfo} {used spare source : Bytes}
    (room : source.length ≤ spare.length) :
    Image.write ⟨head, used ++ spare⟩ (sizeofHeaderInfo + used.length) source =
      ⟨head, used ++ (source ++ spare.drop source.length)⟩ := by
  have place : sizeofHeaderInfo + used.length - sizeofHeaderInfo = used.length :=
    Nat.add_sub_cancel_left _ _
  have size : source.length = (spare.take source.length).length := by
    rw [length_take, Nat.min_eq_left room]
  have written := @Bytes.overwrite_append used _ _ (spare.drop source.length) size
  rw [take_append_drop] at written
  rw [Image.write, place, written]

theorem getLenAfterAddKey_eq {keyBlob : Bytes} {totalLen : BitVec 32}
    (short : totalLen.toNat ≤ maxStorageSize) (formed : WellFormed keyBlob) :
    getLenAfterAddKey keyBlob totalLen =
      if maxStorageSize < totalLen.toNat + keyBlob.length then .error .storageFailure
      else .ok (totalLen + BitVec.ofNat 32 keyBlob.length) := by
  have size := formed.bounds.2.1
  unfold maxStorageSize at *
  have length : (BitVec.ofNat 32 keyBlob.length).toNat = keyBlob.length := by
    rw [BitVec.toNat_ofNat, Nat.mod_eq_of_lt (by omega)]
  have sum : (totalLen + BitVec.ofNat 32 keyBlob.length).toNat =
      totalLen.toNat + keyBlob.length := by
    rw [BitVec.toNat_add, length, Nat.mod_eq_of_lt (by omega)]
  have room : isAdditionOverflow totalLen (BitVec.ofNat 32 keyBlob.length) = false := by
    exact decide_eq_false (by omega)
  rw [getLenAfterAddKey, room, sum]
  rfl

namespace Packed

variable {image : Image} {blobs : List Bytes} {keyAlias : Bytes}

section

variable (packed : Packed image blobs)
include packed

theorem count : blobs.length < 120 := by
  have each : ∀ {some_ : List Bytes}, (∀ keyBlob ∈ some_, WellFormed keyBlob) →
      some_.length * 42 ≤ some_.flatten.length := by
    intro some_ formed
    induction some_ with
    | nil => simp
    | cons keyBlob rest hypothesis =>
      have bounds := (formed keyBlob mem_cons_self).bounds
      have later := hypothesis fun one member => formed one (mem_cons_of_mem _ member)
      rw [flatten_cons, length_append, length_cons]
      unfold sizeofKeyInfo at bounds
      omega
  have size := each packed.formed
  have short := packed.short
  rw [packed.totalLen] at short
  unfold sizeofHeaderInfo maxStorageSize at short
  omega

theorem totalLen_le_size :
    image.head.start.totalLen.toNat ≤ image.size := by
  obtain ⟨spare, rest⟩ := packed.rest
  rw [packed.totalLen, Image.size, rest, length_append]
  omega

theorem from_header :
    ∃ spare, image.from_ sizeofHeaderInfo = blobs.flatten ++ spare := by
  obtain ⟨spare, rest⟩ := packed.rest
  exact ⟨spare, by rw [Image.from_, Nat.sub_self, drop_zero, rest]⟩

theorem getKeyOffset_none
    (missing : ∀ keyBlob ∈ blobs, aliasOf keyBlob ≠ keyAlias) :
    getKeyOffsetByKeyAlias image keyAlias = .error .notExist := by
  have size := packed.totalLen_le_size
  rw [getKeyOffsetByKeyAlias]
  split
  · rfl
  rw [if_neg (by omega), packed.keyCount]
  obtain ⟨spare, here⟩ := packed.from_header
  exact findKey_append 0 packed.formed missing (Nat.le_refl _) here (by rw [packed.totalLen])

end

variable {before after : List Bytes} {keyBlob : Bytes}

theorem getKeyOffset_some (packed : Packed image (before ++ keyBlob :: after)) :
    getKeyOffsetByKeyAlias image (aliasOf keyBlob) =
      .ok (sizeofHeaderInfo + before.flatten.length) := by
  have size := packed.totalLen_le_size
  have count := packed.keyCount
  have long := packed.totalLen
  rw [flatten_append, flatten_cons, length_append, length_append] at long
  rw [length_append, length_cons] at count
  have some_ : image.head.start.keyCount ≠ 0 := by
    intro zero
    rw [zero] at count
    change 0 = _ at count
    omega
  have apart := nodup_append.mp (map_append ▸ packed.unique)
  obtain ⟨spare, here⟩ := packed.from_header
  rw [flatten_append, flatten_cons, append_assoc, append_assoc] at here
  have next : image.from_ (sizeofHeaderInfo + before.flatten.length) =
      keyBlob ++ (after.flatten ++ spare) := by
    rw [image.from_add (Nat.le_refl _), here, drop_left]
  rw [getKeyOffsetByKeyAlias, if_neg some_, if_neg (by omega), count,
    findKey_append _ (fun one member => packed.formed one (mem_append_left _ member))
      (fun one member => apart.2.2 _ (mem_map_of_mem member) _ mem_cons_self)
      (Nat.le_refl _) here (by omega),
    findKey_cons (packed.formed keyBlob (mem_append_right _ mem_cons_self)) next
      (by omega), if_pos rfl]

theorem head (packed : Packed image blobs) {head : HeaderInfo}
    (keyCount : head.start.keyCount = image.head.start.keyCount)
    (totalLen : head.start.totalLen = image.head.start.totalLen) :
    Packed { image with head := head } blobs :=
  ⟨packed.rest, totalLen ▸ packed.totalLen, keyCount ▸ packed.keyCount, totalLen ▸ packed.short,
    packed.formed, packed.unique⟩

section

variable (packed : Packed image (before ++ keyBlob :: after))
include packed

theorem from_blob :
    ∃ spare, image.from_ (sizeofHeaderInfo + before.flatten.length) =
      keyBlob ++ (after.flatten ++ spare) := by
  obtain ⟨spare, here⟩ := packed.from_header
  rw [flatten_append, flatten_cons, append_assoc, append_assoc] at here
  exact ⟨spare, by rw [image.from_add (Nat.le_refl _), here, drop_left]⟩

theorem keyInfoLen :
    (KeyInfo.ofBytes (image.from_ (sizeofHeaderInfo + before.flatten.length))).keyInfoLen =
      keyBlob.length := by
  obtain ⟨spare, here⟩ := packed.from_blob
  have formed := packed.formed keyBlob (mem_append_right _ mem_cons_self)
  rw [here, KeyInfo.ofBytes_append (Nat.le_of_lt formed.long), formed.length]

theorem deleteKey :
    ∃ closed : Image, deleteKey image (sizeofHeaderInfo + before.flatten.length) =
        (closed, none) ∧ Packed closed (before ++ after) ∧ closed.size = image.size ∧
      closed.head = { image.head with start := { image.head.start with
        keyCount := image.head.start.keyCount - 1
        totalLen := image.head.start.totalLen - BitVec.ofNat 32 keyBlob.length } } := by
  obtain ⟨spare, rest⟩ := packed.rest
  have long := packed.totalLen
  have short := packed.short
  have count := packed.keyCount
  have few := packed.count
  rw [flatten_append, flatten_cons, append_assoc, append_assoc] at rest
  rw [flatten_append, flatten_cons, length_append, length_append] at long
  rw [length_append, length_cons] at count few
  unfold maxStorageSize at short
  have totalLen : (image.head.start.totalLen - BitVec.ofNat 32 keyBlob.length).toNat =
      sizeofHeaderInfo + (before ++ after).flatten.length := by
    rw [BitVec.toNat_sub_of_le, BitVec.toNat_ofNat, Nat.mod_eq_of_lt (by omega), flatten_append,
      length_append]
    · omega
    · rw [BitVec.le_def, BitVec.toNat_ofNat, Nat.mod_eq_of_lt (by omega)]
      omega
  have keyCount : (image.head.start.keyCount - 1).toNat = (before ++ after).length := by
    rw [BitVec.toNat_sub_of_le, count, length_append]
    · change before.length + (after.length + 1) - 1 = _
      omega
    · rw [BitVec.le_def]
      change 1 ≤ _
      omega
  have formed : ∀ one ∈ before ++ after, WellFormed one := fun one member =>
    packed.formed one ((mem_append.mp member).elim (mem_append_left _) fun later =>
      mem_append_right _ (mem_cons_of_mem _ later))
  have unique : ((before ++ after).map aliasOf).Nodup :=
    packed.unique.sublist (((sublist_cons_self keyBlob after).append_left before).map _)
  have closed := closeUp_eq rest (by omega : image.head.start.totalLen.toNat = _)
  rw [← append_assoc before.flatten, ← flatten_append] at closed
  rw [KeyImage.deleteKey]
  rw [packed.keyInfoLen, if_neg (by omega), closed]
  refine ⟨_, rfl, ⟨⟨_, rfl⟩, totalLen, keyCount, ?_, formed, unique⟩, ?_, rfl⟩
  · have less := @List.length_append _ before.flatten after.flatten
    rw [totalLen, flatten_append]
    unfold maxStorageSize
    omega
  · rw [Image.size, Image.size, rest, flatten_append]
    simp only [length_append, length_replicate]
    omega

end

section Append

variable {keyBlob : Bytes} (packed : Packed image blobs) (formed : WellFormed keyBlob)
  (new : ∀ one ∈ blobs, aliasOf one ≠ aliasOf keyBlob)
  (short : image.head.start.totalLen.toNat + keyBlob.length ≤ maxStorageSize)

include packed formed new short

theorem added {added : Image} {spare : Bytes}
    (rest : added.rest = blobs.flatten ++ (keyBlob ++ spare))
    (head : added.head = { image.head with start := { image.head.start with
      totalLen := image.head.start.totalLen + BitVec.ofNat 32 keyBlob.length
      keyCount := image.head.start.keyCount + 1 } }) : Packed added (blobs ++ [keyBlob]) := by
  have few := packed.count
  have count := packed.keyCount
  have long := packed.totalLen
  have totalLen : added.head.start.totalLen.toNat =
      image.head.start.totalLen.toNat + keyBlob.length := by
    unfold maxStorageSize at short
    rw [head, BitVec.toNat_add, BitVec.toNat_ofNat, Nat.mod_eq_of_lt (by omega),
      Nat.mod_eq_of_lt (by omega)]
  refine ⟨⟨spare, ?_⟩, ?_, ?_, ?_, ?_, ?_⟩
  · rw [rest, flatten_append, flatten_singleton, append_assoc]
  · rw [totalLen, long, flatten_append, flatten_singleton, length_append, Nat.add_assoc]
  · rw [head, length_append, BitVec.toNat_add, count]
    change (blobs.length + 1) % 2 ^ 16 = blobs.length + 1
    exact Nat.mod_eq_of_lt (by omega)
  · rw [totalLen]
    exact short
  · exact forall_mem_append.mpr ⟨packed.formed, forall_mem_singleton.mpr formed⟩
  · rw [map_append]
    refine nodup_append.mpr ⟨packed.unique, pairwise_singleton _ _, ?_⟩
    intro one listed other single
    rw [mem_singleton.mp single]
    obtain ⟨blob, member, rfl⟩ := mem_map.mp listed
    exact new blob member

omit new in
theorem totalLenAdded (events : Events) : KeyImage.appendNewKey image keyBlob events =
    if image.head.start.totalLen.toNat + keyBlob.length ≤ image.size then
      ({ image.write image.head.start.totalLen.toNat keyBlob with
        head := { image.head with start := { image.head.start with
          totalLen := image.head.start.totalLen + BitVec.ofNat 32 keyBlob.length
          keyCount := image.head.start.keyCount + 1 } } }, none) else adjustImageBuffer image
      (image.head.start.totalLen + BitVec.ofNat 32 keyBlob.length) keyBlob events := by
  have size := formed.bounds.2.1
  have sum : (image.head.start.totalLen + BitVec.ofNat 32 keyBlob.length).toNat =
      image.head.start.totalLen.toNat + keyBlob.length := by
    unfold maxStorageSize at short
    rw [BitVec.toNat_add, BitVec.toNat_ofNat, Nat.mod_eq_of_lt (by omega),
      Nat.mod_eq_of_lt (by omega)]
  have kept : (image.write image.head.start.totalLen.toNat keyBlob).head = image.head := rfl
  unfold KeyImage.appendNewKey
  rw [getLenAfterAddKey_eq packed.short formed, if_neg (by omega)]
  dsimp only
  rw [sum, kept]

theorem appendNewKey {events : Events}
    (room : image.head.start.totalLen.toNat + keyBlob.length ≤ image.size ∨
      events.newBuffer = true) :
    ∃ added : Image, KeyImage.appendNewKey image keyBlob events = (added, none) ∧
      Packed added (blobs ++ [keyBlob]) ∧
        added.head = { image.head with start := { image.head.start with
          totalLen := image.head.start.totalLen + BitVec.ofNat 32 keyBlob.length
          keyCount := image.head.start.keyCount + 1 } } := by
  obtain ⟨spare, rest⟩ := packed.rest
  rw [packed.totalLenAdded formed short]
  have parts : image = ⟨image.head, blobs.flatten ++ spare⟩ := by rw [← rest]
  have bufferSize : image.size = sizeofHeaderInfo + (blobs.flatten.length + spare.length) := by
    rw [Image.size, rest, length_append]
  have long := packed.totalLen
  split
  · next fits =>
    have written : (image.write image.head.start.totalLen.toNat keyBlob).rest =
        blobs.flatten ++ (keyBlob ++ spare.drop keyBlob.length) := by
      rw [long, parts, Image.write_end (by omega)]
    exact ⟨_, rfl, packed.added formed new short written rfl, rfl⟩
  · next large =>
    have memory := room.resolve_left large
    have used : image.rest.take (image.head.start.totalLen.toNat - sizeofHeaderInfo) =
        blobs.flatten := by
      rw [rest, long, Nat.add_sub_cancel_left, take_left]
    generalize larger : List.replicate (image.size + max keyBlob.length bufSizeAddendPerTime -
      sizeofHeaderInfo) (0 : BitVec 8) = zeros
    have count : zeros.length =
        image.size + max keyBlob.length bufSizeAddendPerTime - sizeofHeaderInfo := by
      rw [← larger, length_replicate]
    have copied : Image.write ⟨image.head, zeros⟩ sizeofHeaderInfo blobs.flatten =
        ⟨image.head, blobs.flatten ++ zeros.drop blobs.flatten.length⟩ :=
      @Image.write_end image.head [] zeros blobs.flatten (by omega)
    have appended : Image.write ⟨image.head, blobs.flatten ++ zeros.drop blobs.flatten.length⟩
        image.head.start.totalLen.toNat keyBlob = ⟨image.head, blobs.flatten ++
            (keyBlob ++ (zeros.drop blobs.flatten.length).drop keyBlob.length)⟩ := by
      rw [long]
      exact Image.write_end (by rw [length_drop]; omega)
    rw [adjustImageBuffer, if_neg (by rw [memory]; decide)]
    dsimp only
    rw [larger, used, copied, appended]
    exact ⟨_, rfl, packed.added formed new short rfl rfl, rfl⟩

omit new in
theorem appendNewKey_full {events : Events}
    (large : image.size < image.head.start.totalLen.toNat + keyBlob.length)
    (memory : events.newBuffer = false) :
    KeyImage.appendNewKey image keyBlob events = (image, some .mallocFail) := by
  rw [packed.totalLenAdded formed short, if_neg (by omega), adjustImageBuffer, if_pos memory]

end Append

end Packed

/-! ### Aliases -/

/-- The blob of an alias. -/
def lookup (blobs : List Bytes) (keyAlias : Bytes) : Option Bytes :=
  blobs.find? fun keyBlob => aliasOf keyBlob = keyAlias

/-- The blobs of the other aliases. -/
def without (blobs : List Bytes) (keyAlias : Bytes) : List Bytes :=
  blobs.filter fun keyBlob => aliasOf keyBlob ≠ keyAlias

section Aliases

variable {blobs : List Bytes} {keyAlias keyBlob : Bytes}

theorem lookup_eq_none : lookup blobs keyAlias = none ↔
    ∀ keyBlob ∈ blobs, aliasOf keyBlob ≠ keyAlias := by
  rw [lookup, List.find?_eq_none]
  exact forall₂_congr fun one _ => not_congr decide_eq_true_iff

theorem exists_of_lookup (unique : (blobs.map aliasOf).Nodup)
    (found : lookup blobs keyAlias = some keyBlob) :
    aliasOf keyBlob = keyAlias ∧ ∃ before after, blobs = before ++ keyBlob :: after ∧
      without blobs keyAlias = before ++ after := by
  have same : aliasOf keyBlob = keyAlias := by
    simpa using List.find?_some found
  obtain ⟨before, after, rfl⟩ := append_of_mem (mem_of_find?_eq_some found)
  refine ⟨same, before, after, rfl, ?_⟩
  rw [map_append] at unique
  obtain ⟨_, later, apart⟩ := nodup_append.mp unique
  have first (one : Bytes) (member : one ∈ before) : aliasOf one ≠ keyAlias :=
    same ▸ apart _ (mem_map_of_mem member) _ mem_cons_self
  have last (one : Bytes) (member : one ∈ after) : aliasOf one ≠ keyAlias := by
    rintro equal
    refine (nodup_cons.mp later).1 ?_
    rw [same, ← equal]
    exact mem_map_of_mem member
  rw [without, filter_append, filter_cons, if_neg (by simp [same]),
    filter_eq_self.mpr fun one member => decide_eq_true (first one member),
    filter_eq_self.mpr fun one member => decide_eq_true (last one member)]

theorem without_of_lookup (missing : lookup blobs keyAlias = none) :
    without blobs keyAlias = blobs :=
  filter_eq_self.mpr fun one member =>
    decide_eq_true (lookup_eq_none.mp missing one member)

theorem lookup_without (other : Bytes) : lookup (without blobs keyAlias) other =
    if other = keyAlias then none else lookup blobs other := by
  split
  · next same =>
    rw [lookup_eq_none]
    intro one member
    rw [same]
    exact of_decide_eq_true (mem_filter.mp member).2
  · next different =>
    rw [lookup, without, List.find?_filter]
    refine congrArg (fun test => blobs.find? test) (funext fun one => ?_)
    by_cases equal : aliasOf one = other
    · simp [equal, different]
    · simp [equal]

theorem lookup_append (other : Bytes) :
    lookup (without blobs (aliasOf keyBlob) ++ [keyBlob]) other =
    if other = aliasOf keyBlob then some keyBlob else lookup blobs other := by
  rw [lookup, List.find?_append]
  change (lookup (without blobs (aliasOf keyBlob)) other).or _ = _
  rw [lookup_without]
  split
  · next same => simp [same]
  · next different =>
    rw [List.find?_singleton, if_neg (by simpa using fun equal => different equal.symm),
      or_none]

end Aliases

/-! ### Calls -/

namespace Packed

variable {image : Image} {blobs : List Bytes} {keyAlias : Bytes}

theorem get (packed : Packed image blobs) (keyAlias : Bytes) :
    hksStoreGetKeyBlob image keyAlias true =
      (lookup blobs keyAlias).elim (.error .notExist) .ok := by
  cases found : lookup blobs keyAlias with
  | none =>
    rw [hksStoreGetKeyBlob, packed.getKeyOffset_none (lookup_eq_none.mp found)]
    rfl
  | some keyBlob =>
    obtain ⟨rfl, before, after, rfl, _⟩ := exists_of_lookup packed.unique found
    obtain ⟨spare, here⟩ := packed.from_blob
    have length := packed.keyInfoLen
    rw [hksStoreGetKeyBlob, packed.getKeyOffset_some]
    dsimp only
    rw [length, here, take_left]
    rfl

end Packed

/-- The total length of the image when a key is stored. -/
def newTotalLen (image : Image) (blobs : List Bytes) (keyBlob : Bytes) : Nat :=
  image.head.start.totalLen.toNat -
    (lookup blobs (aliasOf keyBlob)).elim 0 List.length + keyBlob.length

section Store

variable {mac : HeaderStart → BitVec 512} {image : Image} {blobs : List Bytes} {keyBlob : Bytes}
  {events : Events}

theorem refreshKeyInfoHeaderHmac_eq (start : HeaderStart) :
    refreshKeyInfoHeaderHmac mac start events =
      events.macFailure.elim (.ok ⟨start, mac start⟩) .error := by
  obtain ⟨headerCopy, srcData, paramSet, calcMac, _, _⟩ := events
  cases headerCopy with
  | false => rfl
  | true =>
    cases srcData with
    | false => rfl
    | true =>
      cases paramSet with
      | some failure => rfl
      | none =>
        cases calcMac with
        | some failure => rfl
        | none => rfl

/-- What the header is to start with when a key is stored. -/
def storedStart (image : Image) (blobs : List Bytes) (keyBlob : Bytes) : HeaderStart :=
  { image.head.start with
    keyCount :=
      if (lookup blobs (aliasOf keyBlob)).isSome then image.head.start.keyCount
      else image.head.start.keyCount + 1
    totalLen :=
      image.head.start.totalLen -
          BitVec.ofNat 32 ((lookup blobs (aliasOf keyBlob)).elim 0 List.length) +
        BitVec.ofNat 32 keyBlob.length }

theorem storeKeyBlob_eq {needDeleteKey : Bool} {offset : Nat} {start : HeaderStart} {large : Prop}
    [Decidable large] (made : newStart image needDeleteKey offset keyBlob =
      if large then .error .storageFailure else .ok start) :
    storeKeyBlob mac image needDeleteKey offset keyBlob events =
      if large then (image, some .storageFailure) else events.macFailure.elim
          (replaceKey image needDeleteKey offset keyBlob ⟨start, mac start⟩ events)
          fun failure => (image, some failure) := by
  rw [storeKeyBlob, made]
  by_cases refused : large
  · rw [if_pos refused, if_pos refused]
  rw [if_neg refused, if_neg refused]
  dsimp only
  rw [refreshKeyInfoHeaderHmac_eq]
  cases events.macFailure with
  | none => rfl
  | some failure => rfl

theorem storeInImage_eq (packed : Packed image blobs) (formed : WellFormed keyBlob) :
    ∃ offset, (∀ old ∈ lookup blobs (aliasOf keyBlob),
        getKeyOffsetByKeyAlias image (aliasOf keyBlob) = .ok offset) ∧
      storeInImage mac image (aliasOf keyBlob) keyBlob events =
        if maxStorageSize < newTotalLen image blobs keyBlob then (image, some .storageFailure) else
          events.macFailure.elim
            (replaceKey image (lookup blobs (aliasOf keyBlob)).isSome offset keyBlob
              ⟨storedStart image blobs keyBlob, mac (storedStart image blobs keyBlob)⟩ events)
            fun failure => (image, some failure) := by
  have short := packed.short
  cases found : lookup blobs (aliasOf keyBlob) with
  | none =>
    refine ⟨0, fun old member => (not_mem_none old member).elim, ?_⟩
    have total : newTotalLen image blobs keyBlob =
        image.head.start.totalLen.toNat + keyBlob.length := by
      rw [newTotalLen, found]
      rfl
    have started : storedStart image blobs keyBlob = { image.head.start with
        keyCount := image.head.start.keyCount + 1
        totalLen := image.head.start.totalLen + BitVec.ofNat 32 keyBlob.length } := by
      simp [storedStart, found]
    have start : newStart image false 0 keyBlob =
        if maxStorageSize < newTotalLen image blobs keyBlob then .error .storageFailure
        else .ok (storedStart image blobs keyBlob) := by
      rw [newStart, if_neg Bool.false_ne_true, getLenAfterAddKey_eq short formed, total, started]
      split
      · rfl
      · rfl
    rw [storeInImage, packed.getKeyOffset_none (lookup_eq_none.mp found)]
    exact storeKeyBlob_eq start
  | some old =>
    obtain ⟨same, before, after, rfl, _⟩ := exists_of_lookup packed.unique found
    refine ⟨_, fun _ _ => same ▸ packed.getKeyOffset_some, ?_⟩
    have long := packed.totalLen
    rw [flatten_append, flatten_cons, length_append, length_append] at long
    unfold maxStorageSize at short
    have less : (image.head.start.totalLen - BitVec.ofNat 32 old.length).toNat =
        image.head.start.totalLen.toNat - old.length := by
      rw [BitVec.toNat_sub_of_le, BitVec.toNat_ofNat, Nat.mod_eq_of_lt (by omega)]
      rw [BitVec.le_def, BitVec.toNat_ofNat, Nat.mod_eq_of_lt (by omega)]
      omega
    have total : newTotalLen image (before ++ old :: after) keyBlob =
        image.head.start.totalLen.toNat - old.length + keyBlob.length := by
      rw [newTotalLen, found]
      rfl
    have started : storedStart image (before ++ old :: after) keyBlob = { image.head.start with
        totalLen := image.head.start.totalLen - BitVec.ofNat 32 old.length +
          BitVec.ofNat 32 keyBlob.length } := by
      rw [storedStart, found]
      rfl
    have start : newStart image true (sizeofHeaderInfo + before.flatten.length) keyBlob =
        if maxStorageSize < newTotalLen image (before ++ old :: after) keyBlob then
          .error .storageFailure
        else .ok (storedStart image (before ++ old :: after) keyBlob) := by
      rw [newStart, if_pos rfl, packed.keyInfoLen,
        getLenAfterAddKey_eq (by unfold maxStorageSize; omega) formed, less, total, started]
      split
      · rfl
      · rfl
    rw [storeInImage, ← same, packed.getKeyOffset_some]
    exact storeKeyBlob_eq start

theorem deleteKey_found {keyAlias old : Bytes} {offset : Nat} (packed : Packed image blobs)
    (found : lookup blobs keyAlias = some old)
    (place : getKeyOffsetByKeyAlias image keyAlias = .ok offset) :
    (KeyInfo.ofBytes (image.from_ offset)).keyInfoLen = old.length ∧
      old.length ≤ image.head.start.totalLen.toNat ∧
      ∃ closed : Image, deleteKey image offset = (closed, none) ∧
        Packed closed (without blobs keyAlias) ∧ closed.size = image.size ∧
        closed.head = { image.head with start := { image.head.start with
          keyCount := image.head.start.keyCount - 1
          totalLen := image.head.start.totalLen - BitVec.ofNat 32 old.length } } := by
  obtain ⟨rfl, before, after, rfl, rest⟩ := exists_of_lookup packed.unique found
  rw [packed.getKeyOffset_some] at place
  obtain rfl := Except.ok.inj place
  have long := packed.totalLen
  rw [flatten_append, flatten_cons, length_append, length_append] at long
  rw [rest]
  exact ⟨packed.keyInfoLen, by omega, packed.deleteKey⟩

theorem replaceKey_eq (packed : Packed image blobs) {offset : Nat} (head : HeaderInfo)
    (place : ∀ old ∈ lookup blobs (aliasOf keyBlob),
      getKeyOffsetByKeyAlias image (aliasOf keyBlob) = .ok offset) :
    ∃ closed : Image, Packed closed (without blobs (aliasOf keyBlob)) ∧ closed.size = image.size ∧
      (lookup blobs (aliasOf keyBlob) = none → closed = image) ∧
      closed.head.start.totalLen.toNat + keyBlob.length = newTotalLen image blobs keyBlob ∧
      (closed.head.start.totalLen + BitVec.ofNat 32 keyBlob.length =
        (storedStart image blobs keyBlob).totalLen) ∧
      closed.head.start.keyCount + 1 = (storedStart image blobs keyBlob).keyCount ∧
      replaceKey image (lookup blobs (aliasOf keyBlob)).isSome offset keyBlob head events =
        match appendNewKey closed keyBlob events with
        | (image, some failure) => (image, some failure)
        | (image, none) => ({ image with head := head }, none) := by
  cases found : lookup blobs (aliasOf keyBlob) with
  | none =>
    refine ⟨image, (without_of_lookup found).symm ▸ packed, rfl, fun _ => rfl, ?_, ?_, ?_, rfl⟩
    · rw [newTotalLen, found]
      rfl
    · simp [storedStart, found]
    · simp [storedStart, found]
  | some old =>
    obtain ⟨_, less, closed, deleted, others, size, heads⟩ :=
      deleteKey_found packed found (place old found)
    refine ⟨closed, others, size, fun missing => absurd missing (some_ne_none old), ?_, ?_,
      ?_, ?_⟩
    · rw [newTotalLen, found, heads]
      dsimp only [Option.elim]
      rw [BitVec.toNat_sub_of_le, BitVec.toNat_ofNat, Nat.mod_eq_of_lt (by omega)]
      rw [BitVec.le_def, BitVec.toNat_ofNat, Nat.mod_eq_of_lt (by omega)]
      exact less
    · simp [storedStart, found, heads]
    · rw [storedStart, found, heads]
      exact BitVec.sub_add_cancel _ _
    · rw [replaceKey, isSome_some, if_pos rfl, deleted]

section Outcome

variable (packed : Packed image blobs) (formed : WellFormed keyBlob)

include packed formed

theorem storeInImage_refused (refused : maxStorageSize < newTotalLen image blobs keyBlob ∨
      events.macFailure ≠ none) :
    ∃ failure, storeInImage mac image (aliasOf keyBlob) keyBlob events = (image, some failure) := by
  obtain ⟨offset, _, stored⟩ := @storeInImage_eq mac image blobs keyBlob events packed formed
  rw [stored]
  split
  · exact ⟨_, rfl⟩
  next fits =>
  obtain ⟨failure, fails⟩ := ne_none_iff_exists'.mp (refused.resolve_left fits)
  rw [fails]
  exact ⟨failure, rfl⟩

variable (fits : newTotalLen image blobs keyBlob ≤ maxStorageSize)
  (macOk : events.macFailure = none)

include fits macOk

theorem storeInImage_done
    (room : newTotalLen image blobs keyBlob ≤ image.size ∨ events.newBuffer = true) :
    ∃ stored : Image, storeInImage mac image (aliasOf keyBlob) keyBlob events = (stored, none) ∧
      Packed stored (without blobs (aliasOf keyBlob) ++ [keyBlob]) ∧
        stored.head.hmac = mac stored.head.start := by
  obtain ⟨offset, place, stored⟩ := @storeInImage_eq mac image blobs keyBlob events packed formed
  obtain ⟨closed, others, size, _, total, totalLen, keyCount, replaced⟩ :=
    @replaceKey_eq image blobs keyBlob events packed offset
      ⟨storedStart image blobs keyBlob, mac (storedStart image blobs keyBlob)⟩ place
  have new (one : Bytes) (member : one ∈ without blobs (aliasOf keyBlob)) :
      aliasOf one ≠ aliasOf keyBlob := of_decide_eq_true (mem_filter.mp member).2
  obtain ⟨added, appended, packed_, head⟩ :=
    @Packed.appendNewKey closed _ keyBlob others formed new (by omega) events
      (room.imp_left fun fits => by omega)
  rw [stored, if_neg (by omega), macOk, replaced, appended]
  refine ⟨_, rfl, packed_.head ?_ ?_, rfl⟩
  · rw [head]
    exact keyCount.symm
  · rw [head]
    exact totalLen.symm

theorem storeInImage_full (large : image.size < newTotalLen image blobs keyBlob)
    (memory : events.newBuffer = false) :
    ∃ closed : Image, storeInImage mac image (aliasOf keyBlob) keyBlob events =
        (closed, some .mallocFail) ∧ Packed closed (without blobs (aliasOf keyBlob)) ∧
      (lookup blobs (aliasOf keyBlob) = none → closed = image) := by
  obtain ⟨offset, place, stored⟩ := @storeInImage_eq mac image blobs keyBlob events packed formed
  obtain ⟨closed, others, size, same, total, _, _, replaced⟩ :=
    @replaceKey_eq image blobs keyBlob events packed offset
      ⟨storedStart image blobs keyBlob, mac (storedStart image blobs keyBlob)⟩ place
  have full := others.appendNewKey_full formed (by omega) (by omega) memory
  rw [stored, if_neg (by omega), macOk, replaced, full]
  exact ⟨closed, rfl, others, same⟩

end Outcome

end Store

/-! ### Runs -/

/-- The key store, and the blobs stored and not deleted. -/
structure System where
  store : KeyStore
  keys : Bytes → Option Bytes

inductive Call where
  | store (keyAlias keyBlob : Bytes) (events : Events)
  | delete (keyAlias : Bytes) (events : Events)

section Runs

variable (mac : HeaderStart → BitVec 512)

def KeyStore.call (store : KeyStore) : Call → KeyStore × Option Failure
  | .store keyAlias keyBlob events => hksStoreKeyBlob mac store keyAlias keyBlob events
  | .delete keyAlias events => hksStoreDeleteKeyBlob mac store keyAlias events

/-- What is stored and not deleted when a call succeeds. -/
def Call.keys (keys : Bytes → Option Bytes) : Call → Bytes → Option Bytes
  | .store keyAlias keyBlob _ => Function.update keys keyAlias (some keyBlob)
  | .delete keyAlias _ => Function.update keys keyAlias none

def System.step (system : System) (call : Call) : Option System :=
  let called := system.store.call mac call
  some ⟨called.1, if called.2 = none then call.keys system.keys else system.keys⟩

/-- The image has just been made by `InitImageBuffer`, and nothing is stored. -/
def Started (system : System) : Prop :=
  (∃ salt events image, initImageBuffer mac salt events = .ok image ∧
    system.store.image = some image) ∧ system.keys = fun _ => none

/-- Blobs are stored under the aliases in them. -/
def Call.wellFormed : Call → Prop
  | .store keyAlias keyBlob _ => WellFormed keyBlob ∧ aliasOf keyBlob = keyAlias
  | .delete _ _ => True

instance : (call : Call) → Decidable call.wellFormed
  | .store keyAlias keyBlob _ =>
      inferInstanceAs (Decidable (WellFormed keyBlob ∧ aliasOf keyBlob = keyAlias))
  | .delete _ _ => inferInstanceAs (Decidable True)

def Call.events : Call → Events
  | .store _ _ events => events
  | .delete _ events => events

/-- The image is a header with its MAC and the stored blobs behind each other, and a get gives what
is stored. -/
structure Refines (image : Image) (keys : Bytes → Option Bytes) : Prop where
  packed : ∃ blobs, Packed image blobs
  size : image.head.start.totalLen.toNat ≤ image.size
  hmac : image.head.hmac = mac image.head.start
  get : ∀ keyAlias, hksStoreGetKeyBlob image keyAlias true =
    (keys keyAlias).elim (.error .notExist) .ok

/-- What a failed call is to leave: every blob, the count, the length, and a MAC of the header. -/
structure Unchanged (image after : Image) : Prop where
  get : ∀ keyAlias, hksStoreGetKeyBlob after keyAlias true = hksStoreGetKeyBlob image keyAlias true
  keyCount : after.head.start.keyCount = image.head.start.keyCount
  totalLen : after.head.start.totalLen = image.head.start.totalLen
  hmac : after.head.hmac = mac after.head.start

end Runs

/-- The blob that a get gives. -/
def Image.stored (image : Image) (keyAlias : Bytes) : Option Bytes :=
  (hksStoreGetKeyBlob image keyAlias true).toOption

/-- What it takes: when the key fits and there is a MAC, a larger buffer that a replacement needs is
there, and the file is written, or the blob is the one that is stored already. -/
def careful (image : Image) : Call → Bool
  | .store keyAlias keyBlob events =>
      let old := image.stored keyAlias
      let length := image.head.start.totalLen.toNat - old.elim 0 List.length + keyBlob.length
      decide (maxStorageSize < length) || events.macFailure.isSome ||
        if image.size < length ∧ events.newBuffer = false then old.isNone
        else events.fileWrite.isNone || decide (old = some keyBlob)
  | .delete keyAlias events =>
      (image.stored keyAlias).isNone || events.macFailure.isSome || events.fileWrite.isNone

/-! ### What the calls do -/

/-- The image of the key store has some blobs, and its header a MAC. -/
structure Holds (mac : HeaderStart → BitVec 512) (store : KeyStore) (image : Image)
    (blobs : List Bytes) : Prop where
  loaded : store.image = some image
  packed : Packed image blobs
  hmac : image.head.hmac = mac image.head.start

section Outcomes

variable (mac : HeaderStart → BitVec 512) (store : KeyStore) (image : Image) (blobs : List Bytes)

/-- What a store does: nothing, or it loses the old key, or it stores the key. -/
inductive StoreOutcome (keyBlob : Bytes) (events : Events) : KeyStore × Option Failure → Prop
  | refused (failure : Failure)
      (refused : maxStorageSize < newTotalLen image blobs keyBlob ∨ events.macFailure ≠ none) :
      StoreOutcome keyBlob events (store, some failure)
  | full (closed : Image) (fits : newTotalLen image blobs keyBlob ≤ maxStorageSize)
      (macOk : events.macFailure = none) (large : image.size < newTotalLen image blobs keyBlob)
      (memory : events.newBuffer = false) (packed : Packed closed (without blobs (aliasOf keyBlob)))
      (same : lookup blobs (aliasOf keyBlob) = none → closed = image) :
      StoreOutcome keyBlob events ({ store with image := some closed }, some .mallocFail)
  | done (stored : Image) (fits : newTotalLen image blobs keyBlob ≤ maxStorageSize)
      (macOk : events.macFailure = none)
      (room : newTotalLen image blobs keyBlob ≤ image.size ∨ events.newBuffer = true)
      (packed : Packed stored (without blobs (aliasOf keyBlob) ++ [keyBlob]))
      (hmac : stored.head.hmac = mac stored.head.start) :
      StoreOutcome keyBlob events (⟨some stored, (hksFileWrite stored events).1⟩,
        events.fileWrite.map Prod.fst)

/-- What a delete does: nothing, or it deletes the key. -/
inductive DeleteOutcome (keyAlias : Bytes) (events : Events) : KeyStore × Option Failure → Prop
  | refused (failure : Failure)
      (refused : lookup blobs keyAlias = none ∨ events.macFailure ≠ none) :
      DeleteOutcome keyAlias events (store, some failure)
  | done (stored : Image) (found : lookup blobs keyAlias ≠ none) (macOk : events.macFailure = none)
      (packed : Packed stored (without blobs keyAlias))
      (hmac : stored.head.hmac = mac stored.head.start) :
      DeleteOutcome keyAlias events (⟨some stored, (hksFileWrite stored events).1⟩,
        events.fileWrite.map Prod.fst)

variable {mac store image blobs} {keyAlias keyBlob : Bytes} {events : Events}

theorem Packed.stored (packed : Packed image blobs) (keyAlias : Bytes) :
    image.stored keyAlias = lookup blobs keyAlias := by
  rw [Image.stored, packed.get]
  cases lookup blobs keyAlias with
  | none => rfl
  | some keyBlob => rfl

theorem hksFileWrite_snd : (hksFileWrite image events).2 = events.fileWrite.map Prod.fst := by
  rw [hksFileWrite]
  cases events.fileWrite with
  | none => rfl
  | some failed => rfl

theorem Holds.storeOutcome (holds : Holds mac store image blobs) (formed : WellFormed keyBlob) :
    StoreOutcome mac store image blobs keyBlob events
      (hksStoreKeyBlob mac store (aliasOf keyBlob) keyBlob events) := by
  have unchanged : { store with image := some image } = store := by rw [← holds.loaded]
  rw [hksStoreKeyBlob, holds.loaded]
  dsimp only
  by_cases refused : maxStorageSize < newTotalLen image blobs keyBlob ∨ events.macFailure ≠ none
  · obtain ⟨failure, stored⟩ := @storeInImage_refused mac image blobs keyBlob events holds.packed
      formed refused
    rw [stored]
    dsimp only
    rw [unchanged]
    exact .refused failure refused
  · obtain ⟨fits, macOk⟩ := not_or.mp refused
    have fits := Nat.le_of_not_lt fits
    have macOk := not_not.mp macOk
    by_cases room : newTotalLen image blobs keyBlob ≤ image.size ∨ events.newBuffer = true
    · obtain ⟨stored, result, packed, hmac⟩ := @storeInImage_done mac image blobs keyBlob events
        holds.packed formed fits macOk room
      rw [result]
      dsimp only
      rw [hksFileWrite_snd]
      exact .done stored fits macOk room packed hmac
    · obtain ⟨large, memory⟩ := not_or.mp room
      have large := Nat.lt_of_not_le large
      have memory := eq_false_of_ne_true memory
      obtain ⟨closed, result, packed, same⟩ := @storeInImage_full mac image blobs keyBlob events
        holds.packed formed fits macOk large memory
      rw [result]
      exact .full closed fits macOk large memory packed same

theorem Holds.deleteOutcome (holds : Holds mac store image blobs) :
    DeleteOutcome mac store blobs keyAlias events
      (hksStoreDeleteKeyBlob mac store keyAlias events) := by
  rw [hksStoreDeleteKeyBlob, holds.loaded]
  dsimp only
  cases found : lookup blobs keyAlias with
  | none =>
    rw [holds.packed.getKeyOffset_none (lookup_eq_none.mp found)]
    exact .refused _ (.inl found)
  | some old =>
    obtain ⟨same, before, after, rfl, _⟩ := exists_of_lookup holds.packed.unique found
    have place := holds.packed.getKeyOffset_some
    rw [same] at place
    obtain ⟨length, _, closed, deleted, packed, _, head⟩ := deleteKey_found holds.packed found place
    rw [place]
    dsimp only
    rw [refreshKeyInfoHeaderHmac_eq, length]
    cases macFailure : events.macFailure with
    | some failure =>
      exact .refused failure (.inr (macFailure ▸ some_ne_none failure))
    | none =>
      rw [elim_none]
      rw [deleted]
      dsimp only
      rw [hksFileWrite_snd]
      refine .done _ (found ▸ some_ne_none old) macFailure (packed.head ?_ ?_) rfl
      · rw [head]
      · rw [head]

end Outcomes

/-! ### The image refines a map -/

section Refinement

variable {mac : HeaderStart → BitVec 512} {system : System}

/-- The image has the blobs that are stored and not deleted. -/
def Tracks (mac : HeaderStart → BitVec 512) (system : System) : Prop :=
  ∃ image blobs, Holds mac system.store image blobs ∧
    ∀ keyAlias, system.keys keyAlias = lookup blobs keyAlias

theorem holds_of_initImageBuffer {salt : Except Failure (BitVec 128)} {events : Events}
    {image : Image} {store : KeyStore} (made : initImageBuffer mac salt events = .ok image)
    (loaded : store.image = some image) : Holds mac store image [] := by
  cases salt with
  | error failure => cases made
  | ok salt =>
    rw [initImageBuffer] at made
    cases result : calcHeaderMac mac (initHeader salt) events with
    | error failure =>
      rw [result] at made
      cases made
    | ok hmac =>
      rw [result] at made
      obtain rfl := Except.ok.inj made
      have computed : hmac = mac (initHeader salt) := by
        rw [calcHeaderMac] at result
        split at result
        · cases result
        split at result
        · cases result
        · split at result
          · cases result
          · exact (Except.ok.inj result).symm
      have short : (BitVec.ofNat 32 sizeofHeaderInfo).toNat ≤ maxStorageSize := by decide
      exact ⟨loaded, ⟨⟨[], rfl⟩, rfl, rfl, short, forall_mem_nil _, nodup_nil⟩, computed⟩

theorem Holds.refines {store : KeyStore} {image : Image} {blobs : List Bytes}
    (holds : Holds mac store image blobs) {keys : Bytes → Option Bytes}
    (keys_ : ∀ keyAlias, keys keyAlias = lookup blobs keyAlias) : Refines mac image keys where
  packed := ⟨blobs, holds.packed⟩
  size := holds.packed.totalLen_le_size
  hmac := holds.hmac
  get keyAlias := by rw [keys_, holds.packed.get]

theorem Tracks.step (tracks : Tracks mac system) {call : Call} (formed : call.wellFormed)
    (good : call.events = .good) {next : System} (result : system.step mac call = some next) :
    Tracks mac next := by
  obtain ⟨image, blobs, holds, keys⟩ := tracks
  obtain rfl := some_inj.mp result
  cases call with
  | store keyAlias keyBlob events =>
    obtain ⟨formed, rfl⟩ := formed
    obtain rfl : events = .good := good
    generalize called : system.store.call mac (.store (aliasOf keyBlob) keyBlob .good) = outcome
    have cases_ : StoreOutcome mac system.store image blobs keyBlob .good outcome :=
      called ▸ holds.storeOutcome formed
    cases cases_ with
    | refused failure _ => exact ⟨image, blobs, holds, keys⟩
    | full closed _ _ _ memory _ _ => cases memory
    | done stored _ _ _ packed hmac =>
      refine ⟨stored, _, ⟨rfl, packed, hmac⟩, fun other => ?_⟩
      rw [lookup_append, ← keys]
      exact Function.update_apply _ _ _ _
  | delete keyAlias events =>
    obtain rfl : events = .good := good
    generalize called : system.store.call mac (.delete keyAlias .good) = outcome
    have cases_ : DeleteOutcome mac system.store blobs keyAlias .good outcome :=
      called ▸ holds.deleteOutcome
    cases cases_ with
    | refused failure _ => exact ⟨image, blobs, holds, keys⟩
    | done stored _ _ packed hmac =>
      refine ⟨stored, _, ⟨rfl, packed, hmac⟩, fun other => ?_⟩
      rw [lookup_without, ← keys]
      exact Function.update_apply _ _ _ _

end Refinement

/-- A key blob with an alias and some key material, and nothing else. -/
def blobOf (keyAlias key : Bytes) : Bytes :=
  Bytes.ofNat 2 (sizeofKeyInfo + keyAlias.length + key.length) ++ Bytes.ofNat 2 key.length ++
    List.replicate 34 0 ++ Bytes.ofNat 1 keyAlias.length ++ [0] ++ keyAlias ++ key

/-- A MAC that depends on the count and the length. -/
def sampleMac (start : HeaderStart) : BitVec 512 :=
  start.keyCount.setWidth 512 + 256 * start.totalLen.setWidth 512 + 1

/-- A key store after `InitImageBuffer`. -/
def fresh : System :=
  ⟨⟨some ⟨⟨initHeader 5, sampleMac (initHeader 5)⟩, []⟩, none⟩, fun _ => none⟩

theorem started_fresh : Started sampleMac fresh := ⟨⟨.ok 5, .good, _, rfl, rfl⟩, rfl⟩

section Failures

variable {mac : HeaderStart → BitVec 512} {store : KeyStore} {image : Image} {blobs : List Bytes}
  {keyAlias keyBlob : Bytes} {call : Call}

theorem unchanged_of_same {stored : Image} (packed : Packed image blobs)
    (found : lookup blobs (aliasOf keyBlob) = some keyBlob)
    (after : Packed stored (without blobs (aliasOf keyBlob) ++ [keyBlob]))
    (hmac : stored.head.hmac = mac stored.head.start) : Unchanged mac image stored := by
  obtain ⟨_, first, last, rfl, rest⟩ := exists_of_lookup packed.unique found
  have count := packed.keyCount
  have total := packed.totalLen
  have count' := after.keyCount
  have total' := after.totalLen
  rw [rest] at count' total'
  simp only [length_append, length_cons, flatten_append, flatten_cons,
    length_nil, flatten_nil] at count count' total total'
  refine ⟨fun other => ?_, BitVec.eq_of_toNat_eq (by omega), BitVec.eq_of_toNat_eq (by omega), hmac⟩
  rw [after.get, packed.get, lookup_append]
  split
  · next same => rw [same, found]
  · rfl

theorem not_unchanged {stored : Image} {after : List Bytes} (packed : Packed image blobs)
    (packed' : Packed stored after) (different : lookup after keyAlias ≠ lookup blobs keyAlias) :
    ¬ Unchanged mac image stored := by
  intro unchanged
  have same := unchanged.get keyAlias
  rw [packed.get, packed'.get] at same
  refine different ?_
  cases now : lookup after keyAlias with
  | none =>
    cases before : lookup blobs keyAlias with
    | none => rfl
    | some one =>
      rw [now, before] at same
      cases same
  | some other =>
    cases before : lookup blobs keyAlias with
    | none =>
      rw [now, before] at same
      cases same
    | some one =>
      rw [now, before] at same
      exact congrArg some (Except.ok.inj same)

/-- A call that fails leaves what it found exactly when it is careful, and every careful call leaves
an image with a MAC. -/
theorem Holds.unchanged_iff (holds : Holds mac store image blobs) (formed : call.wellFormed) :
    (careful image call = true → ∃ after blobs, Holds mac (store.call mac call).1 after blobs) ∧
      ((store.call mac call).2 ≠ none →
        ((∃ after, (store.call mac call).1.image = some after ∧ Unchanged mac image after) ↔
          careful image call = true)) := by
  have here : Unchanged mac image image := ⟨fun _ => rfl, rfl, rfl, holds.hmac⟩
  cases call with
  | store keyAlias keyBlob events =>
    obtain ⟨formed, rfl⟩ := formed
    have stored := holds.packed.stored (aliasOf keyBlob)
    generalize called : store.call mac (.store (aliasOf keyBlob) keyBlob events) = outcome
    have cases_ : StoreOutcome mac store image blobs keyBlob events outcome :=
      called ▸ holds.storeOutcome formed
    have careful_ : careful image (.store (aliasOf keyBlob) keyBlob events) =
        (decide (maxStorageSize < newTotalLen image blobs keyBlob) || events.macFailure.isSome ||
          if image.size < newTotalLen image blobs keyBlob ∧ events.newBuffer = false then
            (lookup blobs (aliasOf keyBlob)).isNone
          else
            events.fileWrite.isNone || decide (lookup blobs (aliasOf keyBlob) = some keyBlob)) := by
      rw [careful, stored]
      rfl
    rw [careful_]
    cases cases_ with
    | refused failure refused =>
      have met : (decide (maxStorageSize < newTotalLen image blobs keyBlob) ||
          events.macFailure.isSome) = true := by
        simpa [isSome_iff_ne_none] using refused
      rw [met]
      exact ⟨fun _ => ⟨image, blobs, holds⟩, fun _ => iff_of_true ⟨image, holds.loaded, here⟩ rfl⟩
    | full closed fits macOk large memory packed same =>
      rw [decide_eq_false (Nat.not_lt.mpr fits), macOk, if_pos ⟨large, memory⟩]
      cases found : lookup blobs (aliasOf keyBlob) with
      | none =>
        obtain rfl := same found
        exact ⟨fun _ => ⟨closed, blobs, rfl, holds.packed, holds.hmac⟩, fun _ =>
          iff_of_true ⟨closed, rfl, here⟩ rfl⟩
      | some old =>
        refine ⟨fun met => Bool.noConfusion met, fun _ => iff_of_false ?_ Bool.false_ne_true⟩
        rintro ⟨after, equal, unchanged⟩
        obtain rfl := some_inj.mp equal
        refine @not_unchanged mac image blobs (aliasOf keyBlob) _ _ holds.packed packed ?_ unchanged
        rw [lookup_without, if_pos rfl, found]
        exact (some_ne_none old).symm
    | done stored fits macOk room packed hmac =>
      have fitting :
          ¬(image.size < newTotalLen image blobs keyBlob ∧ events.newBuffer = false) := by
        rintro ⟨large, memory⟩
        rcases room with fits | some_
        · omega
        · rw [memory] at some_
          cases some_
      rw [decide_eq_false (Nat.not_lt.mpr fits), macOk, if_neg fitting]
      refine ⟨fun _ => ⟨stored, _, rfl, packed, hmac⟩, fun failed => ?_⟩
      cases written : events.fileWrite with
      | none =>
        rw [written] at failed
        exact absurd rfl failed
      | some failure =>
        simp only [isSome_none, isNone_some, Bool.false_or, decide_eq_true_iff]
        constructor
        · rintro ⟨after, equal, unchanged⟩
          obtain rfl := some_inj.mp equal
          by_contra different
          refine @not_unchanged mac image blobs (aliasOf keyBlob) _ _ holds.packed packed ?_
            unchanged
          rw [lookup_append, if_pos rfl]
          exact fun same => different same.symm
        · intro found
          exact ⟨stored, rfl, unchanged_of_same holds.packed found packed hmac⟩
  | delete keyAlias events =>
    have stored := holds.packed.stored keyAlias
    generalize called : store.call mac (.delete keyAlias events) = outcome
    have cases_ : DeleteOutcome mac store blobs keyAlias events outcome :=
      called ▸ holds.deleteOutcome
    have careful_ : careful image (.delete keyAlias events) =
        ((lookup blobs keyAlias).isNone || events.macFailure.isSome ||
          events.fileWrite.isNone) := by
      rw [careful, stored]
    rw [careful_]
    cases cases_ with
    | refused failure refused =>
      have met : ((lookup blobs keyAlias).isNone || events.macFailure.isSome) = true := by
        simpa [isSome_iff_ne_none] using refused
      rw [met]
      exact ⟨fun _ => ⟨image, blobs, holds⟩, fun _ => iff_of_true ⟨image, holds.loaded, here⟩ rfl⟩
    | done stored found macOk packed hmac =>
      refine ⟨fun _ => ⟨stored, _, rfl, packed, hmac⟩, fun failed => iff_of_false ?_ ?_⟩
      · rintro ⟨after, equal, unchanged⟩
        obtain rfl := some_inj.mp equal
        refine @not_unchanged mac image blobs keyAlias _ _ holds.packed packed ?_ unchanged
        rw [lookup_without, if_pos rfl]
        exact found.symm
      · rw [macOk]
        cases written : events.fileWrite with
        | none =>
          rw [written] at failed
          exact absurd rfl failed
        | some failure =>
          cases missing : lookup blobs keyAlias with
          | none => exact absurd missing found
          | some old => exact Bool.false_ne_true

/-- In every run of careful calls the image has a MAC, and a call that fails next leaves it
unchanged exactly when it is careful. -/
theorem unchanged_iff_of_reachable {system : System} (reached : Reachable (System.step mac)
      (fun system call => call.wellFormed ∧
        ∀ image ∈ system.store.image, careful image call = true) (Started mac) system) :
    ∃ image, system.store.image = some image ∧ image.head.hmac = mac image.head.start ∧
      ∀ call : Call, call.wellFormed → (system.store.call mac call).2 ≠ none →
        ((∃ after, (system.store.call mac call).1.image = some after ∧
          Unchanged mac image after) ↔ careful image call = true) := by
  have holds : ∃ image blobs, Holds mac system.store image blobs := by
    refine @Reachable.invariant _ _ _ _ _ system
      (fun system => ∃ image blobs, Holds mac system.store image blobs)
      (fun first started => ?_) (fun state call next _ before meets result => ?_) reached
    · obtain ⟨⟨salt, events, image, made, loaded⟩, _⟩ := started
      exact ⟨image, [], holds_of_initImageBuffer made loaded⟩
    · obtain ⟨image, blobs, holds⟩ := before
      obtain rfl := Option.some_inj.mp result
      exact (holds.unchanged_iff meets.1).1 (meets.2 image holds.loaded)
  obtain ⟨image, blobs, holds⟩ := holds
  exact ⟨image, holds.loaded, holds.hmac, fun call formed => (holds.unchanged_iff formed).2⟩

end Failures

/-- Some calls, of which the write fails or there is no memory for a larger buffer. -/
def carefulTest (system : System) (call : Call) : Bool :=
  decide call.wellFormed && system.store.image.all fun image => careful image call

theorem carefulTest_sound (system : System) (call : Call) (met : carefulTest system call = true) :
    call.wellFormed ∧ ∀ image ∈ system.store.image, careful image call = true := by
  obtain ⟨formed, all⟩ := Bool.and_eq_true_iff.mp met
  refine ⟨of_decide_eq_true formed, fun image loaded => ?_⟩
  rw [mem_def.mp loaded] at all
  exact all

/-- A key is stored, then the same blob again while the file cannot be written, and another key is
not stored for want of a MAC. -/
def failTwice : List Call :=
  [.store [1] (blobOf [1] [11, 12]) .good,
    .store [1] (blobOf [1] [11, 12]) { Events.good with fileWrite := some (.openFileFail, none) },
    .store [2] (blobOf [2] [13]) { Events.good with calcMac := some (.access 1) }]

theorem unchanged_iff_of_reachable_sample : ∃ system image,
    execute (System.step sampleMac) carefulTest fresh failTwice = some system ∧
      system.store.image = some image ∧
        ∀ call : Call, call.wellFormed → (system.store.call sampleMac call).2 ≠ none →
          ((∃ after, (system.store.call sampleMac call).1.image = some after ∧
            Unchanged sampleMac image after) ↔ careful image call = true) := by
  have runs : (execute (System.step sampleMac) carefulTest fresh failTwice).map
      (fun system => system.store.image.map fun image => image.stored [1]) =
        some (some (some (blobOf [1] [11, 12]))) := by
    decide +kernel
  obtain ⟨system, result, _⟩ := Option.map_eq_some_iff.mp runs
  obtain ⟨image, loaded, _, unchanged⟩ := unchanged_iff_of_reachable
    (.of_execute carefulTest_sound _ (.start started_fresh) result)
  exact ⟨system, image, result, loaded, unchanged⟩

/-- A key is to be replaced by one that needs a larger buffer, and there is no memory: the call
fails, and the old key is lost. -/
theorem failed_replacement_loses : ∃ system image call,
    Reachable (System.step sampleMac) (fun _ call => call.wellFormed) (Started sampleMac) system ∧
      system.store.image = some image ∧ image.stored [1] = some (blobOf [1] [11, 12]) ∧
      call.wellFormed ∧ (system.store.call sampleMac call).2 = some .mallocFail ∧
        ∃ after, (system.store.call sampleMac call).1.image = some after ∧
          after.stored [1] = none ∧ ¬Unchanged sampleMac image after := by
  have runs : (execute (System.step sampleMac) (fun _ call => decide call.wellFormed) fresh
      [.store [1] (blobOf [1] [11, 12]) .good]).map (fun system =>
        let called := system.store.call sampleMac (.store [1] (blobOf [1] (List.replicate 1200 7))
          { Events.good with newBuffer := false })
        (system.store.image.map fun image => image.stored [1], called.2,
          called.1.image.map fun image => image.stored [1])) =
      some (some (some (blobOf [1] [11, 12])), some .mallocFail, some none) := by
    decide +kernel
  obtain ⟨system, result, observed⟩ := Option.map_eq_some_iff.mp runs
  obtain ⟨before, observed⟩ := Prod.mk.inj observed
  obtain ⟨failure, lost⟩ := Prod.mk.inj observed
  obtain ⟨image, loaded, had⟩ := Option.map_eq_some_iff.mp before
  obtain ⟨after, left, missing⟩ := Option.map_eq_some_iff.mp lost
  refine ⟨system, image, _, .of_execute (fun _ _ => of_decide_eq_true) _ (.start started_fresh)
    result, loaded, had, ?_, failure, after, left, missing, fun unchanged => ?_⟩
  · decide +kernel
  · rw [Image.stored, unchanged.get] at missing
    rw [Image.stored, missing] at had
    cases had

end TowerSafe.KeyImage
