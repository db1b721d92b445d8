/-
This file embeds `hks_keyblob_lite.c`, which packs a key with its alias and its parameters into one
entry and gets the key back: the narrow fields of the header, the parts behind it, the short form of
Ed25519 keys, and the status of the last copy. What comes back is what was packed exactly when the
fields hold the values, both sides choose the same form, and there is memory for the copy.
-/

import TowerSafe.Huks.StorageAdapter

namespace TowerSafe.KeyBlob

open Library ParamSet StorageAdapter List
open Except (ok.inj)

/-! ### Packing -/

def maxKeyLen : Nat := 512 * 3

def aeTagLen : Nat := 16

def keyBlobNonceSize : Nat := 12

/-- `HKS_KEY_BYTES(HKS_AES_KEY_SIZE_256)`. -/
def kekSize : Nat := 32

def algEd25519 : Nat := 102

def keyFlagGenerateKey : BitVec 8 := 2

def curve25519KeySize256 : Nat := 256

/-- `HKS_KEY_BYTES(HKS_CURVE25519_KEY_SIZE_256)`. -/
def curve25519KeyBytes : Nat := 32

def deriveKekTag : Bytes := [0x64, 0x65, 0x72, 0x69, 0x76, 0x65, 0x5f, 0x6b, 0x65, 0x79]

def deriveNonceTag : Bytes :=
  [0x64, 0x65, 0x72, 0x69, 0x76, 0x65, 0x5f, 0x6e, 0x6f, 0x6e, 0x63, 0x65]

/-- The return values other than `HKS_SUCCESS`. -/
inductive Failure where
  | mallocFail
  | invalidArgument
  | insufficientMemory
  | invalidKeyInfo
  | invalidKeyFile
  | paramNotExist
  | hal (code : Nat)
  deriving DecidableEq

/-- The cryptographic functions: `HksCryptoHalDeriveKey` of a salt and a size, and authenticated
encryption with a key, a nonce and additional data, where decryption inverts encryption. -/
structure Crypto where
  derive : Bytes → Nat → Bytes
  encrypt : Bytes → Bytes → Bytes → Bytes → Bytes × Bytes
  decrypt : Bytes → Bytes → Bytes → Bytes × Bytes → Option Bytes
  length_cipher : ∀ kek nonce aad payload,
    (encrypt kek nonce aad payload).1.length = payload.length
  length_tag : ∀ kek nonce aad payload, (encrypt kek nonce aad payload).2.length = aeTagLen
  inverts : ∀ kek nonce aad payload,
    decrypt kek nonce aad (encrypt kek nonce aad payload) = some payload

/-- What happens while an entry is built: whether there is memory for the adjusted key and for the
entry, the random bytes, what makes a cryptographic function fail, and the room of the caller. -/
structure BuildEvents where
  adjustedKey : Bool
  tmpOut : Bool
  random : BitVec 128
  hal : Option Failure
  keyOutSize : Nat

/-- What happens while a key is got: whether there is memory for the decrypted key and for the key
of the caller, and what makes a cryptographic function fail. -/
structure GetEvents where
  tmpKey : Bool
  hal : Option Failure
  rawKey : Bool
  deriving DecidableEq

/-- An entry under construction: its header, and the buffer behind it. -/
structure Entry where
  keyInfo : HksStoreKeyInfo
  rest : Bytes

def Entry.bytes (entry : Entry) : Bytes := entry.keyInfo.bytes ++ entry.rest

def restLen : Nat := maxKeyAliasLen + maxKeyAuthIdLen + maxKeyMaterialLen

def zeroEntry : Entry :=
  ⟨⟨0, 0, 0, 0, 0, 0, 0, 0, 0, 0, 0, 0, 0, 0, 0⟩, List.replicate restLen 0⟩

section Crypto

variable (crypto : Crypto)

/-- `GetDeriveMaterial` of the random bytes with a tag. -/
def getDeriveMaterial (tag : Bytes) (random : BitVec 128) (size : Nat) : Bytes :=
  crypto.derive (Bytes.ofNat 16 random.toNat ++ tag) size

/-- The additional data of `BuildKeyBlobUsageSpec`: the header behind `keyInfoLen`, the alias and
the auth id. -/
def aadOf (cipherKey : Bytes) (keyInfo : HksStoreKeyInfo) : Bytes :=
  cipherKey.slice 2 (sizeofKeyInfo - 2 + keyInfo.aliasSize.toNat + keyInfo.authIdSize.toNat)

/-- `EncryptKeyBlob`, with random bytes that are written into the header. -/
def encryptKeyBlob (random : BitVec 128) (rawKey : Bytes) (cipherKey : Entry) : Entry :=
  let keyInfo := { cipherKey.keyInfo with random := random }
  let encKey := crypto.encrypt (getDeriveMaterial crypto deriveKekTag random kekSize)
    (getDeriveMaterial crypto deriveNonceTag random keyBlobNonceSize)
    (aadOf (keyInfo.bytes ++ cipherKey.rest) keyInfo) rawKey
  let start := keyInfo.keyInfoLen.toNat - keyInfo.keySize.toNat - sizeofKeyInfo
  let tag := keyInfo.keyInfoLen.toNat - aeTagLen - sizeofKeyInfo
  ⟨keyInfo, (cipherKey.rest.overwrite start encKey.1).overwrite tag encKey.2⟩

def decryptKeyBlob (hal : Option Failure) (cipherKey : Bytes) : Except Failure Bytes :=
  let keyInfo := HksStoreKeyInfo.ofBytes cipherKey
  let encKey := cipherKey.slice (keyInfo.keyInfoLen.toNat - keyInfo.keySize.toNat)
    (keyInfo.keySize.toNat - aeTagLen)
  let tag := cipherKey.slice (keyInfo.keyInfoLen.toNat - aeTagLen) aeTagLen
  match hal with
  | some failure => .error failure
  | none =>
      match crypto.decrypt (getDeriveMaterial crypto deriveKekTag keyInfo.random kekSize)
          (getDeriveMaterial crypto deriveNonceTag keyInfo.random keyBlobNonceSize)
          (aadOf cipherKey keyInfo) (encKey, tag) with
      | none => .error (.hal 0)
      | some rawKey => .ok rawKey

end Crypto

/-- `CopyKey`, with whether there is memory. `memcpy_s` refuses a size of zero. -/
def copyKey (memory : Bool) (key : Bytes) : Except Failure Bytes :=
  if memory = false then .error .mallocFail
  else if key = [] then .error .insufficientMemory
  else .ok key

/-- `struct KeyMaterial25519` with the fields that `Ed25519BlobToKeyMaterial` gives it. -/
def keyMaterial25519 : Bytes :=
  Bytes.ofNat 4 algEd25519 ++ (Bytes.ofNat 4 curve25519KeySize256 ++
    (Bytes.ofNat 4 curve25519KeyBytes ++ (Bytes.ofNat 4 curve25519KeyBytes ++ Bytes.ofNat 4 0)))

/-- `sizeof(struct KeyMaterial25519)`. -/
def sizeofKeyMaterial25519 : Nat := 20

def ed25519BlobToKeyMaterial (memory : Bool) (key : Bytes) : Except Failure Bytes :=
  if key.length ≠ 2 * curve25519KeyBytes then .error .invalidKeyFile
  else if memory = false then .error .mallocFail
  else .ok (keyMaterial25519 ++ key)

def ed25519KeyMaterialToBlob (memory : Bool) (key : Bytes) : Except Failure Bytes :=
  if key.length < sizeofKeyMaterial25519 then .error .invalidKeyInfo
  else if Bytes.toNat (key.slice 8 4) ≠ curve25519KeyBytes ∨
      Bytes.toNat (key.slice 12 4) ≠ curve25519KeyBytes ∨
      key.length < sizeofKeyMaterial25519 + curve25519KeyBytes + curve25519KeyBytes then
    .error .invalidKeyInfo
  else if memory = false then .error .mallocFail
  else .ok (key.slice sizeofKeyMaterial25519 (2 * curve25519KeyBytes))

/-- `GetRawKeyMaterial`: what is returned, if not `HKS_SUCCESS`, and the key of the caller, if there
is one. The error of the last copy is not returned. -/
def getRawKeyMaterial (crypto : Crypto) (events : GetEvents) (key : Bytes) :
    Option Failure × Option Bytes :=
  if key.length < sizeofKeyInfo then (some .invalidKeyInfo, none)
  else
    let keyInfo := HksStoreKeyInfo.ofBytes key
    if hksIsKeyInfoLenInvalid keyInfo then (some .invalidKeyInfo, none)
    else if events.tmpKey = false then (some .mallocFail, none)
    else
      match decryptKeyBlob crypto events.hal key with
      | .error failure => (some failure, none)
      | .ok tmpKey =>
          if keyInfo.keyAlg.toNat = algEd25519 ∧ keyInfo.flag = keyFlagGenerateKey then
            (none, (ed25519BlobToKeyMaterial events.rawKey tmpKey).toOption)
          else (none, (copyKey events.rawKey tmpKey).toOption)

section Build

variable {abi : Abi} (memory : Memory)

/-- A parameter in the loop of `FillBaseInfo`. -/
def fillParam (keyOut : Entry) (param : HksParam abi) : Except Failure Entry :=
  let keyInfo := keyOut.keyInfo
  let value := paramUint32 param
  if param.tag = tagAlgorithm then
    .ok { keyOut with keyInfo := { keyInfo with keyAlg := value.setWidth 8 } }
  else if param.tag = tagPadding then
    .ok { keyOut with keyInfo := { keyInfo with padding := value.setWidth 8 } }
  else if param.tag = tagDigest then
    .ok { keyOut with keyInfo := { keyInfo with digest := value.setWidth 8 } }
  else if param.tag = tagBlockMode then
    .ok { keyOut with keyInfo := { keyInfo with keyMode := value.setWidth 8 } }
  else if param.tag = tagPurpose then
    .ok { keyOut with keyInfo := { keyInfo with purpose := value } }
  else if param.tag = tagKeySize then
    .ok { keyOut with keyInfo := { keyInfo with keyLen := value.setWidth 16 } }
  else if param.tag = tagKeyRole then
    .ok { keyOut with keyInfo := { keyInfo with role := value } }
  else if param.tag = tagKeyDomain then
    .ok { keyOut with keyInfo := { keyInfo with domain := value.setWidth 16 } }
  else if param.tag = tagKeyAuthId then
    if maxKeyAuthIdLen < param.blobSize.toNat then .error .invalidArgument
    else if param.blobData = 0 then .error .insufficientMemory
    else
      .ok ⟨{ keyInfo with authIdSize := param.blobSize.setWidth 8 },
        keyOut.rest.overwrite keyInfo.aliasSize.toNat
          (Area.bytes memory ⟨param.blobData, param.blobSize.toNat⟩)⟩
  else .ok keyOut

def fillBaseInfo (paramSet : List (HksParam abi)) (keyOut : Entry) : Except Failure Entry :=
  paramSet.foldlM (fillParam memory) keyOut

/-- What `FillStoreKeyInfo` does before the parameters: the flag, the sizes and the alias. -/
def fillAlias (keyAlias : Bytes) (keyFlag : BitVec 8) (key : Bytes) (keyOut : Entry) : Entry :=
  ⟨{ keyOut.keyInfo with
      flag := keyFlag
      keySize := .ofNat 16 (key.length + aeTagLen)
      aliasSize := .ofNat 8 keyAlias.length }, keyOut.rest.overwrite 0 keyAlias⟩

/-- The length of an entry, as `FillStoreKeyInfo` computes it. -/
def fillKeyInfoLen (keyOut : Entry) : Entry :=
  { keyOut with
    keyInfo := { keyOut.keyInfo with
      keyInfoLen := .ofNat 16 (sizeofKeyInfo + keyOut.keyInfo.aliasSize.toNat +
        keyOut.keyInfo.authIdSize.toNat + keyOut.keyInfo.keySize.toNat) } }

/-- `FillStoreKeyInfo`: the bytes of the entry. -/
def fillStoreKeyInfo (crypto : Crypto) (events : BuildEvents) (keyAlias : Bytes)
    (keyFlag : BitVec 8) (key : Bytes) (paramSet : List (HksParam abi)) (keyOut : Entry) :
    Except Failure Bytes :=
  if maxKeyAliasLen < keyAlias.length ∨ maxKeyLen < key.length then .error .invalidArgument
  else do
    let filled ← fillBaseInfo memory paramSet (fillAlias keyAlias keyFlag key keyOut)
    let measured := fillKeyInfoLen filled
    match events.hal with
    | some failure => .error failure
    | none =>
        .ok ((encryptKeyBlob crypto events.random key measured).bytes.take
          measured.keyInfo.keyInfoLen.toNat)

/-- `HksGetParam` of a set that `HksCheckParamSet` lets through. -/
def hksGetParam (paramSet : List (HksParam abi)) (tag : BitVec 32) :
    Except Failure (HksParam abi) :=
  match paramSet.find? fun param => param.tag = tag with
  | none => .error .paramNotExist
  | some param => .ok param

def adjustKey (events : BuildEvents) (keyFlag : BitVec 8) (paramSet : List (HksParam abi))
    (key : Bytes) : Except Failure Bytes := do
  let algParam ← hksGetParam paramSet tagAlgorithm
  if (paramUint32 algParam).toNat = algEd25519 ∧ keyFlag = keyFlagGenerateKey then
    ed25519KeyMaterialToBlob events.adjustedKey key
  else copyKey events.adjustedKey key

/-- `HksBuildKeyBlob`: the bytes of the entry. -/
def hksBuildKeyBlob (crypto : Crypto) (events : BuildEvents) (keyAlias : Bytes) (keyFlag : BitVec 8)
    (key : Bytes) (paramSet : List (HksParam abi)) : Except Failure Bytes := do
  let adjustedKey ← adjustKey events keyFlag paramSet key
  if events.tmpOut = false then .error .mallocFail
  else
    let tmpOut ← fillStoreKeyInfo memory crypto events keyAlias keyFlag adjustedKey paramSet
      zeroEntry
    if events.keyOutSize < tmpOut.length then .error .insufficientMemory else .ok tmpOut

end Build

/-! ### What is stored -/

section Stored

variable {abi : Abi} (memory : Memory)

def lastValue (paramSet : List (HksParam abi)) (tag : BitVec 32) : BitVec 32 :=
  paramSet.foldl (fun value param => if param.tag = tag then paramUint32 param else value) 0

def lastAuthId (paramSet : List (HksParam abi)) : Bytes :=
  paramSet.foldl (fun authId param =>
    if param.tag = tagKeyAuthId then
      Area.bytes memory ⟨param.blobData, param.blobSize.toNat⟩
    else authId) []

theorem lastValue_concat (paramSet : List (HksParam abi)) (param : HksParam abi) (tag : BitVec 32) :
    lastValue (paramSet ++ [param]) tag =
      if param.tag = tag then paramUint32 param else lastValue paramSet tag :=
  foldl_concat ..

theorem lastAuthId_concat (paramSet : List (HksParam abi)) (param : HksParam abi) :
    lastAuthId memory (paramSet ++ [param]) =
      if param.tag = tagKeyAuthId then Area.bytes memory ⟨param.blobData, param.blobSize.toNat⟩
      else lastAuthId memory paramSet :=
  foldl_concat ..

/-- The header with the values of some parameters. -/
def infoOf (keyFlag : BitVec 8) (keySize : BitVec 16) (aliasSize : BitVec 8)
    (paramSet : List (HksParam abi)) : HksStoreKeyInfo where
  keyInfoLen := 0
  keySize := keySize
  random := 0
  flag := keyFlag
  keyAlg := (lastValue paramSet tagAlgorithm).setWidth 8
  keyMode := (lastValue paramSet tagBlockMode).setWidth 8
  digest := (lastValue paramSet tagDigest).setWidth 8
  padding := (lastValue paramSet tagPadding).setWidth 8
  rsv := 0
  keyLen := (lastValue paramSet tagKeySize).setWidth 16
  purpose := lastValue paramSet tagPurpose
  role := lastValue paramSet tagKeyRole
  domain := (lastValue paramSet tagKeyDomain).setWidth 16
  aliasSize := aliasSize
  authIdSize := .ofNat 8 (lastAuthId memory paramSet).length

/-- An entry in which some parameters are filled: the alias and the last auth id are behind the
header. -/
structure Filled (keyFlag : BitVec 8) (keySize : BitVec 16) (keyAlias : Bytes)
    (paramSet : List (HksParam abi)) (entry : Entry) : Prop where
  keyInfo : entry.keyInfo = infoOf memory keyFlag keySize (.ofNat 8 keyAlias.length) paramSet
  rest : ∃ behind, entry.rest = keyAlias ++ (lastAuthId memory paramSet ++ behind)
  authId : (lastAuthId memory paramSet).length ≤ maxKeyAuthIdLen

variable {memory} {keyFlag : BitVec 8} {keySize : BitVec 16} {keyAlias : Bytes}
  {paramSet : List (HksParam abi)} {entry after : Entry} {param : HksParam abi}

section

variable (filled : Filled memory keyFlag keySize keyAlias paramSet entry)
include filled

theorem Filled.plain
    (other : param.tag ≠ tagKeyAuthId) (same : after.rest = entry.rest) (keyInfo : after.keyInfo =
      infoOf memory keyFlag keySize (.ofNat 8 keyAlias.length) (paramSet ++ [param])) :
    Filled memory keyFlag keySize keyAlias (paramSet ++ [param]) after := by
  have authId : lastAuthId memory (paramSet ++ [param]) = lastAuthId memory paramSet := by
    rw [lastAuthId_concat, if_neg other]
  refine ⟨keyInfo, ?_, ?_⟩
  · rw [authId, same]
    exact filled.rest
  · rw [authId]
    exact filled.authId

theorem Filled.authId_
    (short : keyAlias.length ≤ maxKeyAliasLen) (tag : param.tag = tagKeyAuthId)
    (size : param.blobSize.toNat ≤ maxKeyAuthIdLen) :
    Filled memory keyFlag keySize keyAlias (paramSet ++ [param])
      ⟨{ entry.keyInfo with authIdSize := param.blobSize.setWidth 8 },
        entry.rest.overwrite entry.keyInfo.aliasSize.toNat
          (Area.bytes memory ⟨param.blobData, param.blobSize.toNat⟩)⟩ := by
  have authId : lastAuthId memory (paramSet ++ [param]) =
      Area.bytes memory ⟨param.blobData, param.blobSize.toNat⟩ := by
    rw [lastAuthId_concat, if_pos tag]
  have length : (lastAuthId memory (paramSet ++ [param])).length = param.blobSize.toNat := by
    rw [authId, Area.length_bytes]
  obtain ⟨behind, rest⟩ := filled.rest
  refine ⟨?_, ⟨(lastAuthId memory paramSet ++ behind).drop param.blobSize.toNat, ?_⟩, ?_⟩
  · rw [filled.keyInfo]
    simp only [infoOf, lastValue_concat, length, tag]
    rfl
  · have start : (infoOf memory keyFlag keySize (.ofNat 8 keyAlias.length)
        paramSet).aliasSize.toNat = keyAlias.length :=
      Nat.mod_eq_of_lt (by rw [maxKeyAliasLen] at short; omega)
    rw [filled.keyInfo, start, rest, authId, Bytes.overwrite_behind, Area.length_bytes]
  · rw [length]
    exact size

theorem Filled.step
    (short : keyAlias.length ≤ maxKeyAliasLen) (done : fillParam memory entry param = .ok after) :
    Filled memory keyFlag keySize keyAlias (paramSet ++ [param]) after := by
  unfold fillParam at done
  have plain : ∀ (tag : BitVec 32) (keyInfo : HksStoreKeyInfo), param.tag = tag →
      tag ≠ tagKeyAuthId → keyInfo =
        infoOf memory keyFlag keySize (.ofNat 8 keyAlias.length) (paramSet ++ [param]) →
      Except.ok (⟨keyInfo, entry.rest⟩ : Entry) = (Except.ok after : Except Failure Entry) →
      Filled memory keyFlag keySize keyAlias (paramSet ++ [param]) after := by
    intro tag keyInfo same other is done
    obtain rfl := ok.inj done
    exact filled.plain (same ▸ other) rfl is
  have keyInfo := filled.keyInfo
  by_cases first : param.tag = tagAlgorithm
  · rw [if_pos first] at done
    refine plain _ _ first (by decide) ?_ done
    rw [keyInfo]
    simp only [infoOf, lastValue_concat, lastAuthId_concat, first]
    rfl
  rw [if_neg first] at done
  by_cases second : param.tag = tagPadding
  · rw [if_pos second] at done
    refine plain _ _ second (by decide) ?_ done
    rw [keyInfo]
    simp only [infoOf, lastValue_concat, lastAuthId_concat, second]
    rfl
  rw [if_neg second] at done
  by_cases third : param.tag = tagDigest
  · rw [if_pos third] at done
    refine plain _ _ third (by decide) ?_ done
    rw [keyInfo]
    simp only [infoOf, lastValue_concat, lastAuthId_concat, third]
    rfl
  rw [if_neg third] at done
  by_cases fourth : param.tag = tagBlockMode
  · rw [if_pos fourth] at done
    refine plain _ _ fourth (by decide) ?_ done
    rw [keyInfo]
    simp only [infoOf, lastValue_concat, lastAuthId_concat, fourth]
    rfl
  rw [if_neg fourth] at done
  by_cases fifth : param.tag = tagPurpose
  · rw [if_pos fifth] at done
    refine plain _ _ fifth (by decide) ?_ done
    rw [keyInfo]
    simp only [infoOf, lastValue_concat, lastAuthId_concat, fifth]
    rfl
  rw [if_neg fifth] at done
  by_cases sixth : param.tag = tagKeySize
  · rw [if_pos sixth] at done
    refine plain _ _ sixth (by decide) ?_ done
    rw [keyInfo]
    simp only [infoOf, lastValue_concat, lastAuthId_concat, sixth]
    rfl
  rw [if_neg sixth] at done
  by_cases seventh : param.tag = tagKeyRole
  · rw [if_pos seventh] at done
    refine plain _ _ seventh (by decide) ?_ done
    rw [keyInfo]
    simp only [infoOf, lastValue_concat, lastAuthId_concat, seventh]
    rfl
  rw [if_neg seventh] at done
  by_cases eighth : param.tag = tagKeyDomain
  · rw [if_pos eighth] at done
    refine plain _ _ eighth (by decide) ?_ done
    rw [keyInfo]
    simp only [infoOf, lastValue_concat, lastAuthId_concat, eighth]
    rfl
  rw [if_neg eighth] at done
  by_cases ninth : param.tag = tagKeyAuthId
  · rw [if_pos ninth] at done
    by_cases long : maxKeyAuthIdLen < param.blobSize.toNat
    · rw [if_pos long] at done
      cases done
    rw [if_neg long] at done
    by_cases null : param.blobData = 0
    · rw [if_pos null] at done
      cases done
    · rw [if_neg null] at done
      obtain rfl := ok.inj done
      exact filled.authId_ short ninth (by omega)
  · rw [if_neg ninth] at done
    obtain rfl := ok.inj done
    refine filled.plain ninth rfl ?_
    rw [keyInfo]
    simp only [infoOf, lastValue_concat, lastAuthId_concat, first, second, third, fourth, fifth,
      sixth, seventh, eighth, ninth, if_false]

end

theorem filled_fillAlias (keyAlias stored : Bytes) (keyFlag : BitVec 8) :
    Filled memory keyFlag (.ofNat 16 (stored.length + aeTagLen)) keyAlias
      ([] : List (HksParam abi)) (fillAlias keyAlias keyFlag stored zeroEntry) :=
  ⟨rfl, ⟨zeroEntry.rest.drop keyAlias.length, Bytes.overwrite_behind [] zeroEntry.rest keyAlias⟩,
    Nat.zero_le _⟩

theorem Filled.fillBaseInfo {before : List (HksParam abi)} {start : Entry}
    (filled : Filled memory keyFlag keySize keyAlias before start)
    (short : keyAlias.length ≤ maxKeyAliasLen)
    (done : fillBaseInfo memory paramSet start = .ok after) :
    Filled memory keyFlag keySize keyAlias (before ++ paramSet) after := by
  induction paramSet generalizing before start with
  | nil =>
    obtain rfl := ok.inj done
    rwa [append_nil]
  | cons param rest hypothesis =>
    rw [KeyBlob.fillBaseInfo, foldlM_cons] at done
    cases first : fillParam memory start param with
    | error failure =>
      rw [first] at done
      cases done
    | ok entry =>
      rw [first] at done
      have all := hypothesis (filled.step short first) done
      rwa [append_assoc] at all

end Stored

/-! ### Entries -/

section Entries

variable (crypto : Crypto) {keyInfo : HksStoreKeyInfo} {keyAlias authId stored : Bytes}

/-- The lengths in a header are those of the parts behind it. -/
structure Described (keyInfo : HksStoreKeyInfo) (keyAlias authId stored : Bytes) : Prop where
  aliasSize : keyInfo.aliasSize.toNat = keyAlias.length
  authIdSize : keyInfo.authIdSize.toNat = authId.length
  keySize : keyInfo.keySize.toNat = stored.length + aeTagLen
  keyInfoLen : keyInfo.keyInfoLen.toNat =
    sizeofKeyInfo + keyAlias.length + authId.length + (stored.length + aeTagLen)

/-- The key as it is encrypted for a header, and its tag. -/
def sealed (keyInfo : HksStoreKeyInfo) (keyAlias authId stored : Bytes) : Bytes × Bytes :=
  crypto.encrypt (getDeriveMaterial crypto deriveKekTag keyInfo.random kekSize)
    (getDeriveMaterial crypto deriveNonceTag keyInfo.random keyBlobNonceSize)
    (keyInfo.bytes.drop 2 ++ (keyAlias ++ authId)) stored

/-- An entry: the header and the parts behind it. -/
def entryOf (keyInfo : HksStoreKeyInfo) (keyAlias authId stored : Bytes) : Bytes :=
  keyInfo.bytes ++ (keyAlias ++ (authId ++ ((sealed crypto keyInfo keyAlias authId stored).1 ++
    (sealed crypto keyInfo keyAlias authId stored).2)))

theorem length_entryOf (described : Described keyInfo keyAlias authId stored) :
    (entryOf crypto keyInfo keyAlias authId stored).length = keyInfo.keyInfoLen.toNat := by
  simp only [entryOf, sealed, length_append, HksStoreKeyInfo.length_bytes,
    crypto.length_cipher, crypto.length_tag, described.keyInfoLen]
  omega

theorem aadOf_eq (described : Described keyInfo keyAlias authId stored) (behind : Bytes) :
    aadOf (keyInfo.bytes ++ (keyAlias ++ (authId ++ behind))) keyInfo =
      keyInfo.bytes.drop 2 ++ (keyAlias ++ authId) := by
  have length : (keyInfo.bytes.drop 2 ++ (keyAlias ++ authId)).length =
      sizeofKeyInfo - 2 + keyAlias.length + authId.length := by
    rw [length_append, length_append, length_drop, HksStoreKeyInfo.length_bytes,
      Nat.add_assoc]
  have whole : keyInfo.bytes.drop 2 ++ (keyAlias ++ (authId ++ behind)) =
      (keyInfo.bytes.drop 2 ++ (keyAlias ++ authId)) ++ behind := by
    simp only [append_assoc]
  rw [aadOf, described.aliasSize, described.authIdSize, Bytes.slice,
    drop_append_of_le_length (by rw [HksStoreKeyInfo.length_bytes]; decide), whole,
    take_left' length]

theorem encryptKeyBlob_eq (random : BitVec 128) (behind : Bytes)
    (described : Described { keyInfo with random := random } keyAlias authId stored) :
    (encryptKeyBlob crypto random stored
        ⟨keyInfo, keyAlias ++ (authId ++ behind)⟩).bytes.take keyInfo.keyInfoLen.toNat =
      entryOf crypto { keyInfo with random := random } keyAlias authId stored := by
  have length := length_entryOf crypto described
  have cipher : (sealed crypto { keyInfo with random := random } keyAlias authId stored).1.length =
      stored.length := crypto.length_cipher _ _ _ _
  have start : keyInfo.keyInfoLen.toNat - keyInfo.keySize.toNat - sizeofKeyInfo =
      (keyAlias ++ authId).length := by
    have keyInfoLen := described.keyInfoLen
    have keySize := described.keySize
    rw [length_append]
    dsimp only at keyInfoLen keySize
    omega
  have last : keyInfo.keyInfoLen.toNat - aeTagLen - sizeofKeyInfo = ((keyAlias ++ authId) ++
      (sealed crypto { keyInfo with random := random } keyAlias authId stored).1).length := by
    have keyInfoLen := described.keyInfoLen
    rw [length_append, length_append]
    dsimp only at keyInfoLen
    omega
  have same : crypto.encrypt (getDeriveMaterial crypto deriveKekTag random kekSize)
      (getDeriveMaterial crypto deriveNonceTag random keyBlobNonceSize)
      (aadOf (({ keyInfo with random := random } : HksStoreKeyInfo).bytes ++
        (keyAlias ++ (authId ++ behind))) { keyInfo with random := random }) stored =
      sealed crypto { keyInfo with random := random } keyAlias authId stored := by
    rw [aadOf_eq described, sealed]
  generalize both : sealed crypto { keyInfo with random := random } keyAlias authId stored =
    pair at *
  have whole : ∃ more, (encryptKeyBlob crypto random stored
      ⟨keyInfo, keyAlias ++ (authId ++ behind)⟩).bytes =
        entryOf crypto { keyInfo with random := random } keyAlias authId stored ++ more := by
    rw [encryptKeyBlob]
    rw [same, start, last, ← append_assoc keyAlias, Bytes.overwrite_behind,
      ← append_assoc (keyAlias ++ authId), Bytes.overwrite_behind, entryOf, both]
    simp only [append_assoc]
    exact ⟨_, rfl⟩
  obtain ⟨more, whole⟩ := whole
  rw [whole]
  exact take_left' length

theorem decryptKeyBlob_entryOf (described : Described keyInfo keyAlias authId stored) :
    decryptKeyBlob crypto none (entryOf crypto keyInfo keyAlias authId stored) = .ok stored := by
  have cipher : (sealed crypto keyInfo keyAlias authId stored).1.length = stored.length :=
    crypto.length_cipher _ _ _ _
  have tag : (sealed crypto keyInfo keyAlias authId stored).2.length = aeTagLen :=
    crypto.length_tag _ _ _ _
  have front : (keyInfo.bytes ++ (keyAlias ++ authId)).length =
      sizeofKeyInfo + keyAlias.length + authId.length := by
    rw [length_append, length_append, HksStoreKeyInfo.length_bytes, Nat.add_assoc]
  have encKey : (entryOf crypto keyInfo keyAlias authId stored).slice
      (keyInfo.keyInfoLen.toNat - keyInfo.keySize.toNat) (keyInfo.keySize.toNat - aeTagLen) =
      (sealed crypto keyInfo keyAlias authId stored).1 := by
    have start : keyInfo.keyInfoLen.toNat - keyInfo.keySize.toNat =
        (keyInfo.bytes ++ (keyAlias ++ authId)).length := by
      rw [described.keyInfoLen, described.keySize, front, Nat.add_sub_cancel_right]
    have whole : entryOf crypto keyInfo keyAlias authId stored =
        (keyInfo.bytes ++ (keyAlias ++ authId)) ++
          ((sealed crypto keyInfo keyAlias authId stored).1 ++
            (sealed crypto keyInfo keyAlias authId stored).2) := by
      simp only [entryOf, append_assoc]
    rw [start, described.keySize, Nat.add_sub_cancel_right, ← cipher, whole]
    exact Bytes.slice_append _ _ _
  have last : (entryOf crypto keyInfo keyAlias authId stored).slice
      (keyInfo.keyInfoLen.toNat - aeTagLen) aeTagLen =
      (sealed crypto keyInfo keyAlias authId stored).2 := by
    have start : keyInfo.keyInfoLen.toNat - aeTagLen = ((keyInfo.bytes ++ (keyAlias ++ authId)) ++
        (sealed crypto keyInfo keyAlias authId stored).1).length := by
      rw [described.keyInfoLen, length_append, front, cipher, ← Nat.add_assoc,
        Nat.add_sub_cancel_right]
    have whole : entryOf crypto keyInfo keyAlias authId stored =
        ((keyInfo.bytes ++ (keyAlias ++ authId)) ++
          (sealed crypto keyInfo keyAlias authId stored).1) ++
            ((sealed crypto keyInfo keyAlias authId stored).2 ++ []) := by
      simp only [entryOf, append_assoc, append_nil]
    rw [start, ← tag, whole]
    exact Bytes.slice_append _ _ _
  have info : HksStoreKeyInfo.ofBytes (entryOf crypto keyInfo keyAlias authId stored) = keyInfo :=
    HksStoreKeyInfo.ofBytes_bytes _ _
  have aad : aadOf (entryOf crypto keyInfo keyAlias authId stored) keyInfo =
      keyInfo.bytes.drop 2 ++ (keyAlias ++ authId) := aadOf_eq described _
  rw [decryptKeyBlob, info]
  rw [encKey, last, aad, sealed, crypto.inverts]

end Entries

/-! ### What is built -/

section Built

variable {abi : Abi} {memory : Memory} {crypto : Crypto} {events : BuildEvents}
  {keyAlias key stored blob : Bytes} {keyFlag : BitVec 8} {paramSet : List (HksParam abi)}

/-- The header that an entry has. -/
def storedInfo (memory : Memory) (random : BitVec 128) (keyAlias : Bytes) (keyFlag : BitVec 8)
    (stored : Bytes) (paramSet : List (HksParam abi)) : HksStoreKeyInfo :=
  { infoOf memory keyFlag (.ofNat 16 (stored.length + aeTagLen)) (.ofNat 8 keyAlias.length)
      paramSet with
    random := random
    keyInfoLen := .ofNat 16 (sizeofKeyInfo + keyAlias.length + (lastAuthId memory paramSet).length +
      (stored.length + aeTagLen)) }

/-- The parts are not longer than what there is room for. -/
structure Short (keyAlias authId stored : Bytes) : Prop where
  keyAlias : keyAlias.length ≤ maxKeyAliasLen
  authId : authId.length ≤ maxKeyAuthIdLen
  stored : stored.length ≤ maxKeyLen

theorem Short.described (short : Short keyAlias (lastAuthId memory paramSet) stored)
    (random : BitVec 128) :
    Described (storedInfo memory random keyAlias keyFlag stored paramSet) keyAlias
      (lastAuthId memory paramSet) stored := by
  obtain ⟨first, second, third⟩ := short
  rw [maxKeyAliasLen] at first
  rw [maxKeyAuthIdLen] at second
  rw [maxKeyLen] at third
  have tag : aeTagLen = 16 := rfl
  have header : sizeofKeyInfo = 40 := rfl
  refine ⟨Nat.mod_eq_of_lt ?_, Nat.mod_eq_of_lt ?_, Nat.mod_eq_of_lt ?_, Nat.mod_eq_of_lt ?_⟩
  · omega
  · omega
  · omega
  · omega

theorem fillStoreKeyInfo_eq_ok
    (done : fillStoreKeyInfo memory crypto events keyAlias keyFlag stored paramSet zeroEntry =
      .ok blob) : Short keyAlias (lastAuthId memory paramSet) stored ∧
      blob = entryOf crypto (storedInfo memory events.random keyAlias keyFlag stored paramSet)
        keyAlias (lastAuthId memory paramSet) stored := by
  rw [fillStoreKeyInfo] at done
  split_ifs at done with long
  cases first : fillBaseInfo memory paramSet (fillAlias keyAlias keyFlag stored zeroEntry) with
  | error failure =>
    rw [first] at done
    cases done
  | ok entry =>
    have filled := (filled_fillAlias keyAlias stored keyFlag).fillBaseInfo (by omega) first
    have short : Short keyAlias (lastAuthId memory paramSet) stored :=
      ⟨by omega, filled.authId, by omega⟩
    have described := @Short.described abi memory keyAlias stored keyFlag paramSet short
      events.random
    obtain ⟨behind, rest⟩ := filled.rest
    have measured : fillKeyInfoLen entry =
        ⟨{ storedInfo memory events.random keyAlias keyFlag stored paramSet with random := 0 },
          keyAlias ++ (lastAuthId memory paramSet ++ behind)⟩ := by
      have total : sizeofKeyInfo + entry.keyInfo.aliasSize.toNat +
          entry.keyInfo.authIdSize.toNat + entry.keyInfo.keySize.toNat =
            sizeofKeyInfo + keyAlias.length + (lastAuthId memory paramSet).length +
              (stored.length + aeTagLen) := by
        rw [← described.aliasSize, ← described.authIdSize, ← described.keySize, filled.keyInfo]
        rfl
      rw [fillKeyInfoLen, total, rest, filled.keyInfo]
      rfl
    rw [first] at done
    cases hal : events.hal with
    | some failure =>
      rw [hal] at done
      cases done
    | none =>
      rw [hal] at done
      refine ⟨short, ?_⟩
      have built := @encryptKeyBlob_eq crypto
        { storedInfo memory events.random keyAlias keyFlag stored paramSet with random := 0 }
        keyAlias (lastAuthId memory paramSet) stored events.random behind described
      rw [← measured] at built
      have same : (fillKeyInfoLen entry).keyInfo.keyInfoLen.toNat =
          (storedInfo memory events.random keyAlias keyFlag stored paramSet).keyInfoLen.toNat := by
        rw [measured]
      calc blob
        _ = (encryptKeyBlob crypto events.random stored (fillKeyInfoLen entry)).bytes.take
              (fillKeyInfoLen entry).keyInfo.keyInfoLen.toNat := (ok.inj done).symm
        _ = (encryptKeyBlob crypto events.random stored (fillKeyInfoLen entry)).bytes.take
              (storedInfo memory events.random keyAlias keyFlag stored
                paramSet).keyInfoLen.toNat := by rw [same]
        _ = _ := built

end Built

/-! ### What comes back -/

section Back

variable {abi : Abi} {memory : Memory} {crypto : Crypto} {events : BuildEvents}
  {getEvents : GetEvents} {keyAlias authId key stored blob : Bytes} {keyFlag : BitVec 8}
  {keyInfo : HksStoreKeyInfo} {paramSet : List (HksParam abi)}

def firstValue (paramSet : List (HksParam abi)) (tag : BitVec 32) : BitVec 32 :=
  match paramSet.find? fun param => param.tag = tag with
  | none => 0
  | some param => paramUint32 param

def Compressed (keyFlag : BitVec 8) (algorithm : Nat) : Prop :=
  algorithm = algEd25519 ∧ keyFlag = keyFlagGenerateKey

instance (keyFlag : BitVec 8) (algorithm : Nat) : Decidable (Compressed keyFlag algorithm) :=
  inferInstanceAs (Decidable (_ ∧ _))

/-- A key in the form that is stored, and that it is in. -/
def IsStored (keyFlag : BitVec 8) (paramSet : List (HksParam abi)) (key stored : Bytes) : Prop :=
  if Compressed keyFlag (firstValue paramSet tagAlgorithm).toNat then
    sizeofKeyMaterial25519 + 2 * curve25519KeyBytes ≤ key.length ∧
      stored = key.slice sizeofKeyMaterial25519 (2 * curve25519KeyBytes)
  else stored = key ∧ key ≠ []

theorem isStored_of_adjustKey (done : adjustKey events keyFlag paramSet key = .ok stored) :
    IsStored keyFlag paramSet key stored := by
  unfold adjustKey hksGetParam at done
  unfold IsStored firstValue
  cases found : paramSet.find? fun param => decide (param.tag = tagAlgorithm) with
  | none =>
    rw [found] at done
    cases done
  | some param =>
    rw [found] at done
    change (if Compressed keyFlag (paramUint32 param).toNat then
      ed25519KeyMaterialToBlob events.adjustedKey key else copyKey events.adjustedKey key) =
        .ok stored at done
    split_ifs at done ⊢ with compressed
    · unfold ed25519KeyMaterialToBlob at done
      split_ifs at done with short sizes none_
      have same := ok.inj done
      refine ⟨?_, same.symm⟩
      omega
    · unfold copyKey at done
      split_ifs at done with none_ empty
      exact ⟨(ok.inj done).symm, ok.inj done ▸ empty⟩

theorem hksBuildKeyBlob_eq_ok
    (done : hksBuildKeyBlob memory crypto events keyAlias keyFlag key paramSet = .ok blob) :
    ∃ stored, IsStored keyFlag paramSet key stored ∧
      Short keyAlias (lastAuthId memory paramSet) stored ∧
      blob = entryOf crypto (storedInfo memory events.random keyAlias keyFlag stored paramSet)
        keyAlias (lastAuthId memory paramSet) stored := by
  unfold hksBuildKeyBlob at done
  cases adjusted : adjustKey events keyFlag paramSet key with
  | error failure =>
    rw [adjusted] at done
    cases done
  | ok stored =>
    rw [adjusted] at done
    refine ⟨stored, isStored_of_adjustKey adjusted, ?_⟩
    change (if events.tmpOut = false then _ else _) = _ at done
    split_ifs at done with none_
    cases filled : fillStoreKeyInfo memory crypto events keyAlias keyFlag stored paramSet
        zeroEntry with
    | error failure =>
      rw [filled] at done
      cases done
    | ok tmpOut =>
      rw [filled] at done
      change (if events.keyOutSize < tmpOut.length then _ else _) = _ at done
      split_ifs at done with small
      obtain rfl := ok.inj done
      exact fillStoreKeyInfo_eq_ok filled

/-- The lengths in a header are valid when there is an alias. -/
theorem Described.valid_iff (described : Described keyInfo keyAlias authId stored)
    (short : Short keyAlias authId stored) : Valid keyInfo ↔ keyAlias ≠ [] := by
  obtain ⟨first, second, third⟩ := short
  rw [maxKeyLen] at third
  have tag : aeTagLen = 16 := rfl
  constructor
  · rintro valid rfl
    have some_ := valid.keyAlias.1
    rw [described.aliasSize] at some_
    exact absurd some_ (Nat.lt_irrefl 0)
  · intro some_
    have long := length_pos_iff.mpr some_
    refine ⟨?_, ?_, ?_, ?_⟩
    · rw [described.aliasSize]
      exact ⟨long, first⟩
    · rw [described.keySize, maxKeyMaterialLen]
      omega
    · rw [described.authIdSize]
      exact second
    · rw [described.aliasSize, described.authIdSize, described.keySize, described.keyInfoLen]

theorem getRawKeyMaterial_entryOf (described : Described keyInfo keyAlias authId stored)
    (short : Short keyAlias authId stored) :
    getRawKeyMaterial crypto getEvents (entryOf crypto keyInfo keyAlias authId stored) =
      if keyAlias = [] then (some .invalidKeyInfo, none)
      else if getEvents.tmpKey = false then (some .mallocFail, none)
      else
        match getEvents.hal with
        | some failure => (some failure, none)
        | none =>
            (none, if Compressed keyInfo.flag keyInfo.keyAlg.toNat then
              (ed25519BlobToKeyMaterial getEvents.rawKey stored).toOption
            else (copyKey getEvents.rawKey stored).toOption) := by
  have length := length_entryOf crypto described
  have keyInfoLen := described.keyInfoLen
  have info : HksStoreKeyInfo.ofBytes (entryOf crypto keyInfo keyAlias authId stored) = keyInfo :=
    HksStoreKeyInfo.ofBytes_bytes _ _
  rw [getRawKeyMaterial, if_neg (by omega), info]
  dsimp only
  by_cases empty : keyAlias = []
  · have invalid : hksIsKeyInfoLenInvalid keyInfo = true := by
      rw [← Bool.not_eq_false, hksIsKeyInfoLenInvalid_eq_false, described.valid_iff short]
      exact not_not.mpr empty
    rw [if_pos invalid, if_pos empty]
  · have right : hksIsKeyInfoLenInvalid keyInfo = false :=
      hksIsKeyInfoLenInvalid_eq_false.mpr ((described.valid_iff short).mpr empty)
    rw [right, if_neg Bool.false_ne_true, if_neg empty]
    by_cases none_ : getEvents.tmpKey = false
    · rw [if_pos none_, if_pos none_]
    rw [if_neg none_, if_neg none_]
    cases getEvents.hal with
    | some failure => rfl
    | none =>
      rw [decryptKeyBlob_entryOf crypto described]
      by_cases compressed : Compressed keyInfo.flag keyInfo.keyAlg.toNat
      · rw [if_pos compressed]
        exact if_pos compressed
      · rw [if_neg compressed]
        exact if_neg compressed

/-- Where an entry and a key are when the entry is translated: each somewhere in the address space,
and there is memory for the parameter set. -/
structure Placed (heap : Heap abi) (later : Memory) (blob : Bytes) (keyInfoBlob : Area)
    (keyArea : Option Area) : Prop where
  blob : keyInfoBlob.bytes later = blob
  space : keyInfoBlob.end_ ≤ 256 ^ abi.pointerSize
  key : ∀ area ∈ keyArea, Usable abi area
  init : heap.malloc .init defaultParamSetSize ≠ none
  build : ∀ size ≤ paramSetMaxSize, heap.malloc .build size ≠ none

/-- The tags of the numbers that are stored, without the flag. -/
def numberTags : List (BitVec 32) :=
  [tagAlgorithm, tagPurpose, tagKeySize, tagDigest, tagPadding, tagBlockMode, tagKeyRole,
    tagKeyDomain]

/-- The values that were to be stored: the flag, the numbers, the auth id if there is one, and the
key that goes with them. -/
def givenValues (memory : Memory) (keyFlag : BitVec 8) (paramSet : List (HksParam abi))
    (key : Option Bytes) : List (BitVec 32 × Value) :=
  ((tagKeyFlag, .number (keyFlag.setWidth 32)) ::
      numberTags.map fun tag => (tag, .number (lastValue paramSet tag))) ++
    ((if lastAuthId memory paramSet ≠ [] then
        [(tagKeyAuthId, .bytes (lastAuthId memory paramSet))] else []) ++
      key.toList.map fun key => (tagKey, .bytes key))

/-- What is got from an entry is what was put into it, and success comes with a key. -/
structure RoundTrip (heap : Heap abi) (memory later : Memory) (crypto : Crypto)
    (getEvents : GetEvents) (keyFlag : BitVec 8) (key : Bytes) (paramSet : List (HksParam abi))
    (blob : Bytes) (keyInfoBlob : Area) (keyArea : Option Area) : Prop where
  raw : getEvents = ⟨true, none, true⟩ → getRawKeyMaterial crypto getEvents blob = (none, some key)
  holds : (getRawKeyMaterial crypto getEvents blob).1 = none →
    (getRawKeyMaterial crypto getEvents blob).2 ≠ none
  values : ∃ out, (translateKeyInfoBlobToParamSet heap later keyArea keyInfoBlob).result = .ok out ∧
    setValues abi out = givenValues memory keyFlag paramSet (keyArea.map (Area.bytes later))

/-- Both sides choose the same form, and in the short form the header says nothing else. -/
def SameForm (keyFlag : BitVec 8) (paramSet : List (HksParam abi)) (key : Bytes) : Prop :=
  (Compressed keyFlag (firstValue paramSet tagAlgorithm).toNat ↔
      Compressed keyFlag (lastValue paramSet tagAlgorithm).toNat) ∧
    (Compressed keyFlag (firstValue paramSet tagAlgorithm).toNat →
      key.take sizeofKeyMaterial25519 = keyMaterial25519 ∧
        key.length = sizeofKeyMaterial25519 + 2 * curve25519KeyBytes)

/-- The numbers fit into their fields. -/
structure Narrow (paramSet : List (HksParam abi)) : Prop where
  byte : ∀ tag ∈ [tagAlgorithm, tagDigest, tagPadding, tagBlockMode],
    (lastValue paramSet tag).toNat < 2 ^ 8
  half : ∀ tag ∈ [tagKeySize, tagKeyDomain], (lastValue paramSet tag).toNat < 2 ^ 16

/-- When everything comes back: there is an alias, the numbers fit, and where the key can be
decrypted there is memory for it and it comes back in its form. -/
structure Comes (getEvents : GetEvents) (keyAlias : Bytes) (keyFlag : BitVec 8) (key : Bytes)
    (paramSet : List (HksParam abi)) : Prop where
  keyAlias : keyAlias ≠ []
  narrow : Narrow paramSet
  form : getEvents.tmpKey = true → getEvents.hal = none →
    getEvents.rawKey = true ∧ SameForm keyFlag paramSet key

theorem toOption_copyKey (some_ : stored ≠ []) : (copyKey true stored).toOption = some stored := by
  rw [copyKey, if_neg some_]
  rfl

theorem toOption_ed25519BlobToKeyMaterial :
    (ed25519BlobToKeyMaterial true stored).toOption = some key ↔
      stored.length = 2 * curve25519KeyBytes ∧ keyMaterial25519 ++ stored = key := by
  unfold ed25519BlobToKeyMaterial
  by_cases length : stored.length = 2 * curve25519KeyBytes
  · rw [if_neg (not_not.mpr length)]
    exact ⟨fun same => ⟨length, Option.some_inj.mp same⟩, fun both => congrArg some both.2⟩
  · rw [if_pos length]
    exact iff_of_false (fun same => by cases same) fun both => length both.1

/-- The key that is given back is the one that was stored exactly when its form is the same. -/
theorem given_back_iff (isStored : IsStored keyFlag paramSet key stored) :
    (if Compressed keyFlag (lastValue paramSet tagAlgorithm).toNat then
        (ed25519BlobToKeyMaterial true stored).toOption
      else (copyKey true stored).toOption) = some key ↔ SameForm keyFlag paramSet key := by
  have header : keyMaterial25519.length = sizeofKeyMaterial25519 := rfl
  have some_ : 0 < curve25519KeyBytes ∧ 0 < sizeofKeyMaterial25519 := by decide
  unfold IsStored at isStored
  by_cases first : Compressed keyFlag (firstValue paramSet tagAlgorithm).toNat
  · rw [if_pos first] at isStored
    obtain ⟨long, rfl⟩ := isStored
    have length : (key.slice sizeofKeyMaterial25519 (2 * curve25519KeyBytes)).length =
        2 * curve25519KeyBytes := Bytes.length_slice long
    by_cases last : Compressed keyFlag (lastValue paramSet tagAlgorithm).toNat
    · rw [if_pos last, toOption_ed25519BlobToKeyMaterial]
      constructor
      · rintro ⟨-, same⟩
        refine ⟨iff_of_true first last, fun _ => ⟨?_, ?_⟩⟩
        · have front := congrArg (List.take sizeofKeyMaterial25519) same
          rw [take_left' header] at front
          exact front.symm
        · have total := congrArg List.length same
          rw [length_append, header, length] at total
          exact total.symm
      · rintro ⟨-, form⟩
        obtain ⟨front, total⟩ := form first
        refine ⟨length, ?_⟩
        have all : key.slice sizeofKeyMaterial25519 (2 * curve25519KeyBytes) =
            key.drop sizeofKeyMaterial25519 :=
          take_of_length_le (by rw [length_drop]; omega)
        rw [all, ← front, take_append_drop]
    · rw [if_neg last, toOption_copyKey (ne_nil_of_length_pos (by omega)), Option.some_inj]
      refine iff_of_false (fun same => ?_) fun both => last (both.1.mp first)
      have total := congrArg List.length same
      omega
  · rw [if_neg first] at isStored
    obtain ⟨rfl, full⟩ := isStored
    by_cases last : Compressed keyFlag (lastValue paramSet tagAlgorithm).toNat
    · rw [if_pos last, toOption_ed25519BlobToKeyMaterial]
      refine iff_of_false (fun both => ?_) fun both => first (both.1.mpr last)
      have total := congrArg List.length both.2
      rw [length_append] at total
      omega
    · rw [if_neg last, toOption_copyKey full]
      exact iff_of_true rfl ⟨iff_of_false first last, fun other => absurd other first⟩

/-- What is given back is right, and there when it is said to be. -/
theorem given_iff (isStored : IsStored keyFlag paramSet key stored)
    (described : Described keyInfo keyAlias authId stored) (short : Short keyAlias authId stored)
    (some_ : keyAlias ≠ []) (flag : keyInfo.flag = keyFlag)
    (keyAlg : keyInfo.keyAlg.toNat = (lastValue paramSet tagAlgorithm).toNat) :
    ((getEvents = ⟨true, none, true⟩ →
        getRawKeyMaterial crypto getEvents (entryOf crypto keyInfo keyAlias authId stored) =
          (none, some key)) ∧
      ((getRawKeyMaterial crypto getEvents
          (entryOf crypto keyInfo keyAlias authId stored)).1 = none →
        (getRawKeyMaterial crypto getEvents
          (entryOf crypto keyInfo keyAlias authId stored)).2 ≠ none)) ↔
      (getEvents.tmpKey = true → getEvents.hal = none →
        getEvents.rawKey = true ∧ SameForm keyFlag paramSet key) := by
  rw [getRawKeyMaterial_entryOf described short, if_neg some_, flag, keyAlg]
  obtain ⟨tmpKey, hal, rawKey⟩ := getEvents
  dsimp only
  cases tmpKey with
  | false =>
    refine iff_of_true ⟨fun other => ?_, fun other => ?_⟩ fun other => ?_
    · cases other
    · cases other
    · cases other
  | true =>
    rw [if_neg Bool.true_eq_false.mp]
    cases hal with
    | some failure =>
      refine iff_of_true ⟨fun other => ?_, fun other => ?_⟩ fun _ other => ?_
      · cases other
      · cases other
      · cases other
    | none =>
      rw [← given_back_iff isStored]
      cases rawKey with
      | false =>
        have nothing : (if Compressed keyFlag (lastValue paramSet tagAlgorithm).toNat then
            (ed25519BlobToKeyMaterial false stored).toOption
          else (copyKey false stored).toOption) = none := by
          split_ifs
          · unfold ed25519BlobToKeyMaterial
            by_cases length : stored.length = 2 * curve25519KeyBytes
            · rw [if_neg (not_not.mpr length)]
              rfl
            · rw [if_pos length]
              rfl
          · rfl
        exact iff_of_false (fun both => both.2 rfl nothing) fun both => by cases (both rfl rfl).1
      | true =>
        constructor
        · exact fun both _ _ => ⟨rfl, congrArg Prod.snd (both.1 rfl)⟩
        · intro both
          obtain ⟨-, same⟩ := both rfl rfl
          exact ⟨fun _ => Prod.ext rfl same, fun _ => same ▸ Option.some_ne_none _⟩

/-- A number that is narrowed comes back when it fits. -/
theorem setWidth_setWidth_iff {bits : Nat} (value : BitVec 32) (narrow : bits ≤ 32) :
    (value.setWidth bits).setWidth 32 = value ↔ value.toNat < 2 ^ bits := by
  have toNat : ((value.setWidth bits).setWidth 32).toNat = value.toNat % 2 ^ bits := by
    rw [BitVec.toNat_setWidth, BitVec.toNat_setWidth]
    refine Nat.mod_eq_of_lt ((Nat.mod_lt _ (Nat.two_pow_pos bits)).trans_le ?_)
    exact Nat.pow_le_pow_right Nat.two_pos narrow
  constructor
  · intro same
    rw [← same, toNat]
    exact Nat.mod_lt _ (Nat.two_pow_pos bits)
  · intro small
    exact BitVec.eq_of_toNat_eq (toNat.trans (Nat.mod_eq_of_lt small))

theorem keyInfoAt_of_placed {later : Memory} {keyInfoBlob : Area}
    (whole : keyInfoBlob.bytes later = entryOf crypto keyInfo keyAlias authId stored) :
    keyInfoAt later keyInfoBlob.addr = keyInfo := by
  have header := @Area.bytes_part later keyInfoBlob [] keyInfo.bytes _ whole
  rw [HksStoreKeyInfo.length_bytes] at header
  have info := HksStoreKeyInfo.ofBytes_bytes keyInfo []
  rw [append_nil, ← header] at info
  exact info

theorem authIdArea_of_placed {later : Memory} {keyInfoBlob : Area}
    (described : Described keyInfo keyAlias authId stored)
    (whole : keyInfoBlob.bytes later = entryOf crypto keyInfo keyAlias authId stored) :
    (authIdArea keyInfoBlob.addr keyInfo).bytes later = authId := by
  rw [entryOf, ← append_assoc] at whole
  have part := Area.bytes_part whole
  rw [length_append, HksStoreKeyInfo.length_bytes, ← Nat.add_assoc] at part
  rw [authIdArea, described.aliasSize, described.authIdSize]
  exact part

/-- The fixed values are the given ones exactly when the numbers fit. -/
theorem fixedValues_storedInfo_iff (random : BitVec 128) :
    fixedValues (storedInfo memory random keyAlias keyFlag stored paramSet) =
        (tagKeyFlag, .number (keyFlag.setWidth 32)) ::
          numberTags.map (fun tag => (tag, Value.number (lastValue paramSet tag))) ↔
      Narrow paramSet := by
  simp only [fixedValues, storedInfo, infoOf, numberTags, map_cons, map_nil,
    List.cons.injEq, Prod.mk.injEq, Value.number.injEq, true_and, and_true]
  rw [setWidth_setWidth_iff _ (by decide), setWidth_setWidth_iff _ (by decide),
    setWidth_setWidth_iff _ (by decide), setWidth_setWidth_iff _ (by decide),
    setWidth_setWidth_iff _ (by decide), setWidth_setWidth_iff _ (by decide)]
  constructor
  · rintro ⟨algorithm, keySize, digest, padding, mode, domain⟩
    constructor
    · simp only [forall_mem_cons]
      exact ⟨algorithm, digest, padding, mode, forall_mem_nil _⟩
    · simp only [forall_mem_cons]
      exact ⟨keySize, domain, forall_mem_nil _⟩
  · rintro ⟨byte, half⟩
    simp only [forall_mem_cons] at byte half
    exact ⟨byte.1, half.1, byte.2.1, byte.2.2.1, byte.2.2.2.1, half.2.1⟩

/-- The parameter set has the given values when there is an alias and the numbers fit. -/
theorem values_iff {heap : Heap abi} {later : Memory} {keyInfoBlob : Area} {keyArea : Option Area}
    (short : Short keyAlias (lastAuthId memory paramSet) stored)
    (placed : Placed heap later (entryOf crypto (storedInfo memory events.random keyAlias keyFlag
      stored paramSet) keyAlias (lastAuthId memory paramSet) stored) keyInfoBlob keyArea) :
    (∃ out, (translateKeyInfoBlobToParamSet heap later keyArea keyInfoBlob).result = .ok out ∧
        setValues abi out = givenValues memory keyFlag paramSet (keyArea.map (Area.bytes later))) ↔
      keyAlias ≠ [] ∧ Narrow paramSet := by
  have described := @Short.described abi memory keyAlias stored keyFlag paramSet short events.random
  have length := length_entryOf crypto described
  have keyInfoLen := described.keyInfoLen
  have info := keyInfoAt_of_placed placed.blob
  have size : keyInfoBlob.size = _ := (Area.length_bytes later keyInfoBlob).symm.trans
    ((congrArg List.length placed.blob).trans length)
  have valid := described.valid_iff short
  by_cases empty : keyAlias = []
  · refine iff_of_false ?_ fun both => both.1 empty
    rintro ⟨out, translated, -⟩
    have invalid : hksIsKeyInfoLenInvalid
        (storedInfo memory events.random keyAlias keyFlag stored paramSet) = true := by
      rw [← Bool.not_eq_false, hksIsKeyInfoLenInvalid_eq_false, valid]
      exact not_not.mpr empty
    unfold translateKeyInfoBlobToParamSet at translated
    cases made : hksInitParamSet heap with
    | error failure =>
      rw [made] at translated
      cases translated
    | ok set =>
      rw [made] at translated
      obtain ⟨after, added, -⟩ := Reading.result_bind.mp translated
      rw [addStorageParams, if_neg (by omega)] at added
      obtain ⟨read, same, added⟩ := Reading.result_bind.mp added
      rw [result_readKeyInfo, info] at same
      obtain rfl := ok.inj same
      rw [invalid] at added
      cases added
  · have space := placed.space
    rw [Area.end_, size] at space
    obtain ⟨out, translated, values⟩ := @setValues_translateKeyInfoBlobToParamSet abi heap later
      keyArea keyInfoBlob placed.init placed.build (by omega) (by rw [info]; exact valid.mpr empty)
      (by rw [info]; exact space) placed.key
    rw [info, authIdArea_of_placed described placed.blob] at values
    have auth : (storedInfo memory events.random keyAlias keyFlag stored paramSet).authIdSize ≠ 0 ↔
        lastAuthId memory paramSet ≠ [] := by
      rw [not_iff_not, ← length_eq_zero_iff, ← described.authIdSize]
      exact ⟨fun zero => zero ▸ rfl, fun zero => BitVec.eq_of_toNat_eq zero⟩
    have keys : (keyArea.map (Area.bytes later)).toList.map (fun key => (tagKey, Value.bytes key)) =
        keyArea.toList.map fun area => (tagKey, .bytes (area.bytes later)) := by
      cases keyArea <;> rfl
    have same : setValues abi out = givenValues memory keyFlag paramSet
        (keyArea.map (Area.bytes later)) ↔ Narrow paramSet := by
      rw [← @fixedValues_storedInfo_iff abi memory keyAlias stored keyFlag paramSet events.random,
        values, givenValues, keys, if_congr auth rfl rfl]
      exact append_left_inj _
    constructor
    · rintro ⟨other, result, given⟩
      obtain rfl := ok.inj (translated.symm.trans result)
      exact ⟨empty, same.mp given⟩
    · rintro ⟨-, narrow⟩
      exact ⟨out, translated, same.mpr narrow⟩

/-- For every key, alias, flag and parameter set that is accepted, the key and the values come back,
and success comes with a key, exactly when there is an alias, the numbers fit into their fields, and
where the key can be decrypted there is memory for it and both sides choose the same form. -/
theorem comesBack_iff {heap : Heap abi} {later : Memory} {keyInfoBlob : Area}
    {keyArea : Option Area}
    (built : hksBuildKeyBlob memory crypto events keyAlias keyFlag key paramSet = .ok blob)
    (placed : Placed heap later blob keyInfoBlob keyArea) :
    RoundTrip heap memory later crypto getEvents keyFlag key paramSet blob keyInfoBlob keyArea ↔
      Comes getEvents keyAlias keyFlag key paramSet := by
  obtain ⟨stored, isStored, short, rfl⟩ := hksBuildKeyBlob_eq_ok built
  have described := @Short.described abi memory keyAlias stored keyFlag paramSet short events.random
  have values := @values_iff abi memory crypto events keyAlias stored keyFlag paramSet heap later
    keyInfoBlob keyArea short placed
  have given : keyAlias ≠ [] → Narrow paramSet → _ := fun some_ narrow =>
    @given_iff abi crypto getEvents keyAlias (lastAuthId memory paramSet) key stored keyFlag _
      paramSet isStored described short some_ rfl
        (Nat.mod_eq_of_lt (narrow.byte tagAlgorithm List.mem_cons_self))
  constructor
  · rintro ⟨raw, holds, comes⟩
    obtain ⟨some_, narrow⟩ := values.mp comes
    exact ⟨some_, narrow, (given some_ narrow).mp ⟨raw, holds⟩⟩
  · rintro ⟨some_, narrow, form⟩
    obtain ⟨raw, holds⟩ := (given some_ narrow).mpr form
    exact ⟨raw, holds, values.mpr ⟨some_, narrow⟩⟩

end Back

/-! ### A key of three bytes -/

/-- A cipher for samples: bytes are combined with one of the key, and the tag is made of all that is
authenticated. -/
def sampleCrypto : Crypto where
  derive salt size := Bytes.ofNat size (Bytes.toNat salt)
  encrypt kek nonce aad payload :=
    (payload.map (kek.headD 0 ^^^ ·),
      Bytes.ofNat aeTagLen ((payload ++ (aad ++ (nonce ++ kek))).map BitVec.toNat).sum)
  decrypt kek nonce aad cipher :=
    let payload := cipher.1.map (kek.headD 0 ^^^ ·)
    if cipher.2 = Bytes.ofNat aeTagLen ((payload ++ (aad ++ (nonce ++ kek))).map BitVec.toNat).sum
    then
      some payload
    else none
  length_cipher _ _ _ _ := length_map _
  length_tag _ _ _ _ := Bytes.length_ofNat _ _
  inverts kek nonce aad payload := by
    have back : (payload.map (kek.headD 0 ^^^ ·)).map (kek.headD 0 ^^^ ·) = payload := by
      rw [map_map]
      refine (map_congr_left fun byte _ => ?_).trans (map_id payload)
      rw [Function.comp_apply, ← BitVec.xor_assoc, BitVec.xor_self, BitVec.zero_xor]
      rfl
    simp only [back, if_pos]

/-- Memory for every parameter set. -/
def sampleHeap : Heap .ilp32 where
  malloc := fun allocation size =>
    if size ≤ paramSetMaxSize then some (sampleAddress allocation) else none
  content := fun _ _ => 0xA5
  fits := fun allocation size address allocated => by
    obtain ⟨small, same⟩ := Option.ite_none_right_eq_some.mp allocated
    obtain rfl := Option.some_inj.mp same
    have low : sampleAddress allocation + paramSetMaxSize < 256 ^ Abi.ilp32.pointerSize := by
      cases allocation <;> decide
    omega

def sampleEvents : BuildEvents := ⟨true, true, 7, none, 4096⟩

def sampleAlias : Bytes := [0x61]

def sampleKey : Bytes := [1, 2, 3]

def sampleParams : List (HksParam .ilp32) :=
  [uint32Param .ilp32 tagAlgorithm 20, uint32Param .ilp32 tagKeySize 128]

/-- What is built: the header, the alias, the encrypted key and its tag. -/
def sampleBlob : Bytes :=
  [60, 0, 19, 0, 7, 0, 0, 0, 0, 0, 0, 0, 0, 0, 0, 0, 0, 0, 0, 0, 2, 20, 0, 0, 0, 0, 128, 0, 0, 0, 0,
    0, 0, 0, 0, 0, 0, 0, 1, 0] ++
    ([0x61] ++ ([6, 5, 4] ++ [77, 5, 0, 0, 0, 0, 0, 0, 0, 0, 0, 0, 0, 0, 0, 0]))

theorem built_sampleBlob :
    hksBuildKeyBlob (fun _ => 0) sampleCrypto sampleEvents sampleAlias keyFlagGenerateKey sampleKey
      sampleParams = .ok sampleBlob := by
  decide +kernel

def sampleLater : Memory := Area.store (fun _ => 0) 0x2000 (sampleBlob ++ sampleKey)

theorem placed_sampleBlob :
    Placed sampleHeap sampleLater sampleBlob ⟨0x2000, 60⟩ (some ⟨0x203C, 3⟩) where
  blob := @Area.bytes_part sampleLater ⟨0x2000, 63⟩ [] sampleBlob sampleKey
    (Area.bytes_store (fun _ => 0) 0x2000 (sampleBlob ++ sampleKey))
  space := by decide
  key := by
    rintro area ⟨⟩
    exact ⟨by decide, by decide, by decide, by decide⟩
  init := by decide
  build size small := by
    rw [sampleHeap]
    dsimp only
    rw [if_pos small]
    exact Option.some_ne_none _

theorem comesBack_iff_sample :
    RoundTrip sampleHeap (fun _ => 0) sampleLater sampleCrypto ⟨true, none, true⟩
      keyFlagGenerateKey sampleKey sampleParams sampleBlob ⟨0x2000, 60⟩ (some ⟨0x203C, 3⟩) := by
  refine (comesBack_iff built_sampleBlob placed_sampleBlob).mpr ⟨by decide, ⟨?_, ?_⟩, ?_⟩
  · simp only [List.forall_mem_cons]
    exact ⟨by decide +kernel, by decide +kernel, by decide +kernel, by decide +kernel,
      List.forall_mem_nil _⟩
  · simp only [List.forall_mem_cons]
    exact ⟨by decide +kernel, by decide +kernel, List.forall_mem_nil _⟩
  · refine fun _ _ => ⟨rfl, iff_of_false ?_ ?_, fun compressed => absurd compressed ?_⟩
    · decide +kernel
    · decide +kernel
    · decide +kernel

/-- Without memory for the key of the caller, success comes without a key. -/
theorem success_without_key :
    getRawKeyMaterial sampleCrypto ⟨true, none, false⟩ sampleBlob = (none, none) ∧
      ¬RoundTrip sampleHeap (fun _ => 0) sampleLater sampleCrypto ⟨true, none, false⟩
        keyFlagGenerateKey sampleKey sampleParams sampleBlob ⟨0x2000, 60⟩ (some ⟨0x203C, 3⟩) := by
  have got : getRawKeyMaterial sampleCrypto ⟨true, none, false⟩ sampleBlob = (none, none) := by
    decide +kernel
  exact ⟨got, fun roundTrip => roundTrip.holds (congrArg Prod.fst got) (congrArg Prod.snd got)⟩

end TowerSafe.KeyBlob
