/-
This file embeds `hks_storage_adapter.c`, which makes a parameter set of a stored key: the layout of
`struct HksStoreKeyInfo`, the check of its lengths, and the parameters that are read from it. The
areas that are read are remembered, and lie in an entry whose lengths are valid.
-/

import TowerSafe.Huks.ParamBuild
import TowerSafe.Library.Fields
import TowerSafe.Library.Reading

namespace TowerSafe.StorageAdapter

open List hiding set
open Library ParamSet

abbrev Memory := Nat → BitVec 8

/-! ### Stored keys -/

/-- `sizeof(struct HksStoreKeyInfo)`. -/
def sizeofKeyInfo : Nat := 40

def maxKeyAliasLen : Nat := 64

def maxKeyAuthIdLen : Nat := 64

/-- `HKS_MAX_KEY_MATERIAL_LEN`: the public key info, three times 512 bytes and a tag. -/
def maxKeyMaterialLen : Nat := 20 + 512 * 3 + 16

@[ext]
structure HksStoreKeyInfo where
  keyInfoLen : BitVec 16
  keySize : BitVec 16
  random : BitVec 128
  flag : BitVec 8
  keyAlg : BitVec 8
  keyMode : BitVec 8
  digest : BitVec 8
  padding : BitVec 8
  rsv : BitVec 8
  keyLen : BitVec 16
  purpose : BitVec 32
  role : BitVec 32
  domain : BitVec 16
  aliasSize : BitVec 8
  authIdSize : BitVec 8
  deriving DecidableEq

namespace HksStoreKeyInfo

/-- The fields as they stand one behind the other. -/
def fields (info : HksStoreKeyInfo) : List Bytes :=
  [.ofNat 2 info.keyInfoLen.toNat, .ofNat 2 info.keySize.toNat, .ofNat 16 info.random.toNat,
    .ofNat 1 info.flag.toNat, .ofNat 1 info.keyAlg.toNat, .ofNat 1 info.keyMode.toNat,
    .ofNat 1 info.digest.toNat, .ofNat 1 info.padding.toNat, .ofNat 1 info.rsv.toNat,
    .ofNat 2 info.keyLen.toNat, .ofNat 4 info.purpose.toNat, .ofNat 4 info.role.toNat,
    .ofNat 2 info.domain.toNat, .ofNat 1 info.aliasSize.toNat, .ofNat 1 info.authIdSize.toNat]

def bytes (info : HksStoreKeyInfo) : Bytes := info.fields.flatten

/-- The key info at the start of some bytes. -/
def ofBytes (bytes : Bytes) : HksStoreKeyInfo where
  keyInfoLen := Bytes.number 16 bytes 0 2
  keySize := Bytes.number 16 bytes 2 2
  random := Bytes.number 128 bytes 4 16
  flag := Bytes.number 8 bytes 20 1
  keyAlg := Bytes.number 8 bytes 21 1
  keyMode := Bytes.number 8 bytes 22 1
  digest := Bytes.number 8 bytes 23 1
  padding := Bytes.number 8 bytes 24 1
  rsv := Bytes.number 8 bytes 25 1
  keyLen := Bytes.number 16 bytes 26 2
  purpose := Bytes.number 32 bytes 28 4
  role := Bytes.number 32 bytes 32 4
  domain := Bytes.number 16 bytes 36 2
  aliasSize := Bytes.number 8 bytes 38 1
  authIdSize := Bytes.number 8 bytes 39 1

theorem length_bytes (info : HksStoreKeyInfo) : info.bytes.length = sizeofKeyInfo := by
  simp only [bytes, fields, length_flatten, map_cons, map_nil, Bytes.length_ofNat]
  rfl

theorem ofBytes_bytes (info : HksStoreKeyInfo) (after : Bytes) :
    ofBytes (info.bytes ++ after) = info := by
  have field := Bytes.slice_flatten info.fields after
  ext1
  · exact Bytes.number_eq (field 0 (Nat.le_of_ble_eq_true rfl)) (by decide)
  · exact Bytes.number_eq (field 1 (Nat.le_of_ble_eq_true rfl)) (by decide)
  · exact Bytes.number_eq (field 2 (Nat.le_of_ble_eq_true rfl)) (by decide)
  · exact Bytes.number_eq (field 3 (Nat.le_of_ble_eq_true rfl)) (by decide)
  · exact Bytes.number_eq (field 4 (Nat.le_of_ble_eq_true rfl)) (by decide)
  · exact Bytes.number_eq (field 5 (Nat.le_of_ble_eq_true rfl)) (by decide)
  · exact Bytes.number_eq (field 6 (Nat.le_of_ble_eq_true rfl)) (by decide)
  · exact Bytes.number_eq (field 7 (Nat.le_of_ble_eq_true rfl)) (by decide)
  · exact Bytes.number_eq (field 8 (Nat.le_of_ble_eq_true rfl)) (by decide)
  · exact Bytes.number_eq (field 9 (Nat.le_of_ble_eq_true rfl)) (by decide)
  · exact Bytes.number_eq (field 10 (Nat.le_of_ble_eq_true rfl)) (by decide)
  · exact Bytes.number_eq (field 11 (Nat.le_of_ble_eq_true rfl)) (by decide)
  · exact Bytes.number_eq (field 12 (Nat.le_of_ble_eq_true rfl)) (by decide)
  · exact Bytes.number_eq (field 13 (Nat.le_of_ble_eq_true rfl)) (by decide)
  · exact Bytes.number_eq (field 14 (Nat.le_of_ble_eq_true rfl)) (by decide)

end HksStoreKeyInfo

def hksIsKeyInfoLenInvalid (keyInfo : HksStoreKeyInfo) : Bool :=
  decide (maxKeyAliasLen < keyInfo.aliasSize.toNat) || keyInfo.aliasSize == 0 ||
    decide (maxKeyMaterialLen < keyInfo.keySize.toNat) || keyInfo.keySize == 0 ||
    decide (maxKeyAuthIdLen < keyInfo.authIdSize.toNat) ||
    decide (keyInfo.keyInfoLen.toNat ≠ sizeofKeyInfo + keyInfo.aliasSize.toNat +
      keyInfo.authIdSize.toNat + keyInfo.keySize.toNat)

/-! ### Parameters -/

section Params

variable (abi : Abi)

/-- A `struct HksParam` with `uint32Param`. -/
def uint32Param (tag value : BitVec 32) : HksParam abi where
  bytes := Bytes.ofNat 4 tag.toNat ++ (Bytes.ofNat 4 0 ++ (Bytes.ofNat 4 value.toNat ++
    List.replicate (2 * abi.pointerSize - 4) 0))
  length := by cases abi <;> rfl

/-- A `struct HksParam` with `blob`. -/
def blobParam (tag : BitVec 32) (blob : Area) : HksParam abi where
  bytes := Bytes.ofNat 4 tag.toNat ++ (Bytes.ofNat 4 0 ++
    (Bytes.ofNat abi.pointerSize blob.size ++ Bytes.ofNat abi.pointerSize blob.addr))
  length := by cases abi <;> rfl

def tagAlgorithm : BitVec 32 := 0x20000001

def tagPurpose : BitVec 32 := 0x20000002

def tagKeySize : BitVec 32 := 0x20000003

def tagDigest : BitVec 32 := 0x20000004

def tagPadding : BitVec 32 := 0x20000005

def tagBlockMode : BitVec 32 := 0x20000006

def tagKeyAuthId : BitVec 32 := 0x500003ED

def tagKeyRole : BitVec 32 := 0x200003EE

def tagKeyFlag : BitVec 32 := 0x200003EF

def tagKeyDomain : BitVec 32 := 0x200003F3

def tagKey : BitVec 32 := 0x50002716

/-- The parameters of `AddStorageFixedParams`. -/
def fixedParams (keyInfo : HksStoreKeyInfo) : List (HksParam abi) :=
  [uint32Param abi tagKeyFlag (keyInfo.flag.setWidth 32),
    uint32Param abi tagAlgorithm (keyInfo.keyAlg.setWidth 32),
    uint32Param abi tagPurpose keyInfo.purpose,
    uint32Param abi tagKeySize (keyInfo.keyLen.setWidth 32),
    uint32Param abi tagDigest (keyInfo.digest.setWidth 32),
    uint32Param abi tagPadding (keyInfo.padding.setWidth 32),
    uint32Param abi tagBlockMode (keyInfo.keyMode.setWidth 32),
    uint32Param abi tagKeyRole keyInfo.role,
    uint32Param abi tagKeyDomain (keyInfo.domain.setWidth 32)]

end Params

section Translation

variable {abi : Abi} {Error : Type}

/-- The return values other than `HKS_SUCCESS`. -/
inductive Failure where
  | param (failure : ParamSet.Failure)
  | invalidKeyInfo
  deriving DecidableEq

def readKeyInfo (memory : Memory) (tmpBuf : Nat) : Reading Error HksStoreKeyInfo := do
  let bytes ← Reading.read memory ⟨tmpBuf, sizeofKeyInfo⟩
  pure (.ofBytes bytes)

/-- `HksAddParams`, with a failure that is passed on. -/
def addParams (set : HksParamSet abi) (params : List (HksParam abi)) :
    Reading Failure (HksParamSet abi) :=
  match hksAddParams set (some params) with
  | (_, some failure) => Reading.fail (.param failure)
  | (set, none) => pure set

def authIdArea (tmpBuf : Nat) (keyInfo : HksStoreKeyInfo) : Area :=
  ⟨tmpBuf + sizeofKeyInfo + keyInfo.aliasSize.toNat, keyInfo.authIdSize.toNat⟩

def addAuthId (tmpBuf : Nat) (keyInfo : HksStoreKeyInfo) (set : HksParamSet abi) :
    Reading Failure (HksParamSet abi) :=
  if keyInfo.authIdSize ≠ 0 then
    addParams set [blobParam abi tagKeyAuthId (authIdArea tmpBuf keyInfo)]
  else pure set

def addKey (key : Option Area) (set : HksParamSet abi) : Reading Failure (HksParamSet abi) :=
  match key with
  | none => pure set
  | some key => addParams set [blobParam abi tagKey key]

def addStorageParams (memory : Memory) (key : Option Area) (keyInfoBlob : Area)
    (set : HksParamSet abi) : Reading Failure (HksParamSet abi) :=
  if keyInfoBlob.size < sizeofKeyInfo then
    Reading.fail .invalidKeyInfo
  else do
    let keyInfo ← readKeyInfo memory keyInfoBlob.addr
    if hksIsKeyInfoLenInvalid keyInfo then
      Reading.fail .invalidKeyInfo
    else
      let set ← addParams set (fixedParams abi keyInfo)
      let set ← addAuthId keyInfoBlob.addr keyInfo set
      addKey key set

/-- `HksBuildParamSet`, which reads the blobs of the parameters. -/
def buildReading (heap : Heap abi) (memory : Memory) (set : HksParamSet abi) :
    Reading Failure (Nat × Bytes) :=
  ⟨(hksBuildParamSet heap memory set).mapError .param,
    (blobs set.params).map fun blob => ⟨blob.1, blob.2⟩⟩

/-- `TranslateKeyInfoBlobToParamSet`: the address of the set, and its bytes. -/
def translateKeyInfoBlobToParamSet (heap : Heap abi) (memory : Memory) (key : Option Area)
    (keyInfoBlob : Area) : Reading Failure (Nat × Bytes) :=
  match hksInitParamSet heap with
  | .error failure => Reading.fail (.param failure)
  | .ok set => do
    let set ← addStorageParams memory key keyInfoBlob set
    buildReading heap memory set

end Translation

/-! ### What is read -/

section Reads

variable {abi : Abi}

/-- Parameters that are added stand behind those that were there, and nothing is read for them. -/
theorem addParams_spec (set : HksParamSet abi) (params : List (HksParam abi)) (outer : Area) :
    (addParams set params).Within outer ∧
      ∀ after, (addParams set params).result = .ok after →
        hksAddParams set (some params) = (after, none) ∧ after.params = set.params ++ params := by
  unfold addParams
  cases added : hksAddParams set (some params) with
  | mk after failure =>
    cases failure with
    | some failure => exact ⟨Reading.within_fail, fun _ no => by cases no⟩
    | none =>
      refine ⟨Reading.within_pure, fun other same => ?_⟩
      obtain rfl := Reading.result_pure.mp same
      refine ⟨rfl, ?_⟩
      unfold hksAddParams at added
      cases checked : checkBeforeAddParams set (some params) with
      | some failure =>
        rw [checked] at added
        cases added
      | none =>
        rw [checked] at added
        have run : addLoop set params = (after, none) := added
        have all := (addLoop_params set params).2
        rw [run] at all
        exact all rfl

end Reads

/-! ### What the parameters say -/

section Params

variable (abi : Abi)

theorem tag_uint32Param (tag value : BitVec 32) : (uint32Param abi tag value).tag = tag :=
  Bytes.number_eq (Bytes.slice_append [] (Bytes.ofNat 4 tag.toNat) _) (by decide)

theorem tag_blobParam (tag : BitVec 32) (blob : Area) : (blobParam abi tag blob).tag = tag :=
  Bytes.number_eq (Bytes.slice_append [] (Bytes.ofNat 4 tag.toNat) _) (by decide)

/-- `uint32Param` of a parameter. -/
def paramUint32 {abi : Abi} (param : HksParam abi) : BitVec 32 := Bytes.number 32 param.bytes 8 4

theorem paramUint32_uint32Param (tag value : BitVec 32) :
    paramUint32 (uint32Param abi tag value) = value := by
  refine Bytes.number_eq ?_ (by decide)
  have whole : (uint32Param abi tag value).bytes = (Bytes.ofNat 4 tag.toNat ++ Bytes.ofNat 4 0) ++
      (Bytes.ofNat 4 value.toNat ++ List.replicate (2 * abi.pointerSize - 4) 0) :=
    (append_assoc _ _ _).symm
  rw [whole]
  exact Bytes.slice_append (Bytes.ofNat 4 tag.toNat ++ Bytes.ofNat 4 0)
    (Bytes.ofNat 4 value.toNat) _

theorem blobSize_blobParam (tag : BitVec 32) {blob : Area} (small : blob.size < 2 ^ 32) :
    (blobParam abi tag blob).blobSize.toNat = blob.size := by
  have part : Bytes.slice (blobParam abi tag blob).bytes blobSizeAt 4 =
      Bytes.ofNat 4 blob.size := by
    cases abi with
    | ilp32 =>
      exact Bytes.slice_append (Bytes.ofNat 4 tag.toNat ++ Bytes.ofNat 4 0)
        (Bytes.ofNat 4 blob.size) _
    | lp64 =>
      exact Bytes.slice_append (Bytes.ofNat 4 tag.toNat ++ Bytes.ofNat 4 0)
        (Bytes.ofNat 4 blob.size) _
  rw [HksParam.blobSize, part, Bytes.toNat_ofNat _ _ small]
  exact Nat.mod_eq_of_lt small

theorem blobData_blobParam (tag : BitVec 32) {blob : Area}
    (inside : blob.addr < 256 ^ abi.pointerSize) :
    (blobParam abi tag blob).blobData = blob.addr := by
  have part : Bytes.slice (blobParam abi tag blob).bytes abi.blobDataAt abi.pointerSize =
      Bytes.ofNat abi.pointerSize blob.addr := by
    have last := Bytes.slice_append (Bytes.ofNat 4 tag.toNat ++ (Bytes.ofNat 4 0 ++
      Bytes.ofNat abi.pointerSize blob.size)) (Bytes.ofNat abi.pointerSize blob.addr) []
    rw [append_nil, append_assoc, append_assoc] at last
    cases abi with
    | ilp32 => exact last
    | lp64 => exact last
  rw [HksParam.blobData, part, Bytes.toNat_ofNat _ _ inside]

theorem blobs_fixedParams (keyInfo : HksStoreKeyInfo) : blobs (fixedParams abi keyInfo) = [] := by
  have plain : ∀ param ∈ fixedParams abi keyInfo, param.hasBlob = false := by
    simp only [fixedParams, forall_mem_cons, HksParam.hasBlob, tag_uint32Param]
    exact ⟨rfl, rfl, rfl, rfl, rfl, rfl, rfl, rfl, rfl, forall_mem_nil _⟩
  rw [blobs, filter_eq_nil_iff.mpr fun param member => by rw [plain param member]; decide]
  rfl

theorem blobs_blobParam {tag : BitVec 32} (bytes : isBytes tag = true) {blob : Area}
    (inside : blob.addr < 256 ^ abi.pointerSize) (small : blob.size < 2 ^ 32) :
    blobs [blobParam abi tag blob] = [(blob.addr, blob.size)] := by
  have has : (blobParam abi tag blob).hasBlob = true := by
    rw [HksParam.hasBlob, tag_blobParam, bytes]
  rw [blobs, filter_cons_of_pos has, filter_nil, map_singleton,
    blobData_blobParam abi tag inside, blobSize_blobParam abi tag small]

theorem blobs_append {abi : Abi} (first second : List (HksParam abi)) :
    blobs (first ++ second) = blobs first ++ blobs second := by
  rw [blobs, blobs, blobs, filter_append, map_append]

end Params

/-! ### Containment -/

section Containment

variable {abi : Abi}

/-- An entry is one key info with its alias, its auth id and its key. -/
structure Valid (keyInfo : HksStoreKeyInfo) : Prop where
  keyAlias : 0 < keyInfo.aliasSize.toNat ∧ keyInfo.aliasSize.toNat ≤ maxKeyAliasLen
  key : 0 < keyInfo.keySize.toNat ∧ keyInfo.keySize.toNat ≤ maxKeyMaterialLen
  authId : keyInfo.authIdSize.toNat ≤ maxKeyAuthIdLen
  sum : sizeofKeyInfo + keyInfo.aliasSize.toNat + keyInfo.authIdSize.toNat +
    keyInfo.keySize.toNat = keyInfo.keyInfoLen.toNat

theorem hksIsKeyInfoLenInvalid_eq_false {keyInfo : HksStoreKeyInfo} :
    hksIsKeyInfoLenInvalid keyInfo = false ↔ Valid keyInfo := by
  have zero : ∀ (bits : Nat) (value : BitVec bits), (value == 0) = false ↔ 0 < value.toNat := by
    intro bits value
    rw [beq_eq_false_iff_ne, Nat.pos_iff_ne_zero]
    exact not_congr ⟨fun same => same ▸ BitVec.toNat_zero, fun same => BitVec.eq_of_toNat_eq
      (same.trans BitVec.toNat_zero.symm)⟩
  simp only [hksIsKeyInfoLenInvalid, Bool.or_eq_false_iff, decide_eq_false_iff_not, zero, not_lt,
    not_not]
  constructor
  · rintro ⟨⟨⟨⟨⟨long, some_⟩, big⟩, key⟩, auth⟩, sum⟩
    exact ⟨⟨some_, long⟩, ⟨key, big⟩, auth, sum.symm⟩
  · rintro ⟨⟨some_, long⟩, ⟨key, big⟩, auth, sum⟩
    exact ⟨⟨⟨⟨⟨long, some_⟩, big⟩, key⟩, auth⟩, sum.symm⟩

def keyInfoAt (memory : Memory) (tmpBuf : Nat) : HksStoreKeyInfo :=
  .ofBytes (Area.bytes memory ⟨tmpBuf, sizeofKeyInfo⟩)

theorem result_readKeyInfo {Error : Type} (memory : Memory) (tmpBuf : Nat) :
    (readKeyInfo memory tmpBuf : Reading Error HksStoreKeyInfo).result =
      .ok (keyInfoAt memory tmpBuf) := rfl

theorem within_readKeyInfo {Error : Type} {memory : Memory} {tmpBuf : Nat} {outer : Area} :
    (readKeyInfo memory tmpBuf : Reading Error HksStoreKeyInfo).Within outer ↔
      (⟨tmpBuf, sizeofKeyInfo⟩ : Area).Inside outer := by
  rw [readKeyInfo, Reading.within_bind, Reading.within_read]
  exact and_iff_left fun _ _ => Reading.within_pure

theorem within_translateKeyInfoBlobToParamSet (heap : Heap abi) (memory : Memory) (tmpBuf : Nat)
    (valid : Valid (keyInfoAt memory tmpBuf))
    (space : tmpBuf + (keyInfoAt memory tmpBuf).keyInfoLen.toNat ≤ 256 ^ abi.pointerSize) :
    (translateKeyInfoBlobToParamSet heap memory none
        ⟨tmpBuf, (keyInfoAt memory tmpBuf).keyInfoLen.toNat⟩).Within
      ⟨tmpBuf, (keyInfoAt memory tmpBuf).keyInfoLen.toNat⟩ := by
  have sum := valid.sum
  have some_ := valid.keyAlias.1
  generalize found : keyInfoAt memory tmpBuf = keyInfo at valid space sum some_ ⊢
  have auth : (authIdArea tmpBuf keyInfo).Inside ⟨tmpBuf, keyInfo.keyInfoLen.toNat⟩ := by
    simp only [Area.Inside, Area.end_, authIdArea]
    omega
  unfold translateKeyInfoBlobToParamSet
  cases made : hksInitParamSet heap with
  | error failure => exact Reading.within_fail
  | ok set =>
    have empty : set.params = [] := (growing_of_hksInitParamSet made).params
    suffices both : (addStorageParams memory none ⟨tmpBuf, keyInfo.keyInfoLen.toNat⟩ set).Within
        ⟨tmpBuf, keyInfo.keyInfoLen.toNat⟩ ∧ ∀ after,
          (addStorageParams memory none ⟨tmpBuf, keyInfo.keyInfoLen.toNat⟩ set).result =
            .ok after → ∀ blob ∈ blobs after.params,
              blob = ((authIdArea tmpBuf keyInfo).addr, (authIdArea tmpBuf keyInfo).size) by
      refine Reading.within_bind.mpr ⟨both.1, fun after added area member => ?_⟩
      obtain ⟨blob, present, rfl⟩ := mem_map.mp member
      rw [both.2 after added blob present]
      exact auth
    unfold addStorageParams
    rw [if_neg (by simp only; omega)]
    constructor
    · refine Reading.within_bind.mpr ⟨within_readKeyInfo.mpr ?_, fun info same => ?_⟩
      · simp only [Area.Inside, Area.end_]
        omega
      · split_ifs
        · exact Reading.within_fail
        · refine Reading.within_bind.mpr ⟨(addParams_spec _ _ _).1, fun fixed _ => ?_⟩
          refine Reading.within_bind.mpr ⟨?_, fun _ _ => Reading.within_pure⟩
          unfold addAuthId
          split_ifs
          · exact (addParams_spec _ _ _).1
          · exact Reading.within_pure
    · intro after added
      obtain ⟨info, read, added⟩ := Reading.result_bind.mp added
      obtain rfl : info = keyInfo := by
        rw [result_readKeyInfo, found] at read
        exact (Except.ok.inj read).symm
      split_ifs at added
      · cases added
      · obtain ⟨fixed, first, added⟩ := Reading.result_bind.mp added
        have fixed_eq := ((addParams_spec set _ ⟨tmpBuf, 0⟩).2 fixed first).2
        rw [empty, nil_append] at fixed_eq
        obtain ⟨last, second, added⟩ := Reading.result_bind.mp added
        obtain rfl := Reading.result_pure.mp added
        unfold addAuthId at second
        split_ifs at second with auth_
        · have last_eq := ((addParams_spec fixed _ ⟨tmpBuf, 0⟩).2 last second).2
          rw [last_eq, fixed_eq, blobs_append, blobs_fixedParams]
          have behind := valid.key.1
          rw [blobs_blobParam abi rfl (by simp only [authIdArea]; omega)
            (by simp only [authIdArea]; omega)]
          exact fun blob member => mem_singleton.mp member
        · obtain rfl := Reading.result_pure.mp second
          rw [fixed_eq, blobs_fixedParams]
          exact forall_mem_nil _

end Containment

/-! ### The values of a set -/

/-- What a parameter of a set has: a number, or bytes in the set. -/
inductive Value where
  | number (value : BitVec 32)
  | bytes (bytes : Bytes)
  deriving DecidableEq

section Values

variable {abi : Abi}

def addedValue (memory : Memory) (param : HksParam abi) : Value :=
  if param.hasBlob then .bytes (Area.bytes memory ⟨param.blobData, param.blobSize.toNat⟩)
  else .number (paramUint32 param)

def setValue (address : Nat) (set : Bytes) (param : HksParam abi) : Value :=
  if param.hasBlob then
    .bytes (Bytes.slice set (param.blobData - address) param.blobSize.toNat)
  else .number (paramUint32 param)

/-- The tags and the values of the parameters of a set, with its address and its bytes. -/
def setValues (abi : Abi) (out : Nat × Bytes) : List (BitVec 32 × Value) :=
  (paramsOf abi out.2).map fun param => (param.tag, setValue out.1 out.2 param)

variable {memory : Memory}

theorem setValue_eq {address : Nat} {set : Bytes} {added param : HksParam abi}
    (same : Same memory address set added param) :
    (param.tag, setValue address set param) = (added.tag, addedValue memory added) := by
  have kind : param.hasBlob = added.hasBlob := by
    rw [HksParam.hasBlob, same.tag, HksParam.hasBlob]
  refine Prod.ext same.tag ?_
  rw [setValue, addedValue, kind]
  cases blob : added.hasBlob with
  | false =>
    rw [if_neg Bool.false_ne_true, if_neg Bool.false_ne_true, same.value blob]
  | true =>
    rw [if_pos rfl, (same.blob blob).2.2.2]
    rfl

variable {added : List (HksParam abi)}

theorem setValues_eq {out : Nat × Bytes} (same : RoundTrip memory added out) :
    setValues abi out = added.map fun param => (param.tag, addedValue memory param) := by
  unfold RoundTrip at same
  rw [setValues]
  generalize paramsOf abi out.2 = params at same
  induction same with
  | nil => rfl
  | cons first _ hypothesis =>
    rw [map_cons, map_cons, hypothesis, setValue_eq first]

theorem built_of_growing {heap : Heap abi} {set : HksParamSet abi} (growing : Growing added set)
    (small : setSize added ≤ paramSetMaxSize) (last : LastFull added)
    (available : ∀ size ≤ paramSetMaxSize, heap.malloc .build size ≠ none) :
    ∃ out, hksBuildParamSet heap memory set = .ok out ∧ RoundTrip memory added out := by
  rcases hksBuildParamSet_cases heap memory growing small with
    ⟨address, data, done, space, _, _⟩ | ⟨_, uncopied⟩
  · refine ⟨_, done, ?_⟩
    have length : (relocate (address + (headerSize + abi.paramSize * added.length)) added).length =
        added.length := length_relocate _ _
    have head : Header set.header (setSize added)
        (relocate (address + (headerSize + abi.paramSize * added.length)) added).length := by
      rw [length]
      exact growing.head
    rw [RoundTrip, paramsOf_append head]
    refine same_relocate added (set.header ++ paramBytes (relocate (address + (headerSize +
      abi.paramSize * added.length)) added)) data ?_ ?_ ?_
    · rw [append_assoc]
    · rw [length_append, growing.head.length, length_paramBytes, length]
    · rw [setSize] at space
      omega
  · exact absurd ⟨(copyable_iff growing.present).mpr last, fun _ => available _ small⟩ uncopied

theorem result_addParams {set : HksParamSet abi} {params : List (HksParam abi)}
    (growing : Growing added set) (passes : Passes added params)
    (fits : setSize (added ++ params) < 2 ^ 32) :
    ∃ after, addParams set params = pure after ∧ Growing (added ++ params) after := by
  obtain ⟨done, grown⟩ := growing.add passes fits
  refine ⟨_, ?_, grown⟩
  unfold addParams
  cases both : hksAddParams set (some params) with
  | mk after failure =>
    rw [both] at done
    obtain rfl : failure = none := done
    rfl

end Values

/-! ### Translation -/

section Translated

variable {abi : Abi} {heap : Heap abi} {memory : Memory}

/-- The parameters that an entry has, and the key of the caller. -/
def storageParams (abi : Abi) (tmpBuf : Nat) (keyInfo : HksStoreKeyInfo) (key : Option Area) :
    List (HksParam abi) :=
  fixedParams abi keyInfo ++
    ((if keyInfo.authIdSize ≠ 0 then [blobParam abi tagKeyAuthId (authIdArea tmpBuf keyInfo)]
      else []) ++ key.toList.map (blobParam abi tagKey))

/-- The values of `AddStorageFixedParams`. -/
def fixedValues (keyInfo : HksStoreKeyInfo) : List (BitVec 32 × Value) :=
  [(tagKeyFlag, .number (keyInfo.flag.setWidth 32)),
    (tagAlgorithm, .number (keyInfo.keyAlg.setWidth 32)),
    (tagPurpose, .number keyInfo.purpose),
    (tagKeySize, .number (keyInfo.keyLen.setWidth 32)),
    (tagDigest, .number (keyInfo.digest.setWidth 32)),
    (tagPadding, .number (keyInfo.padding.setWidth 32)),
    (tagBlockMode, .number (keyInfo.keyMode.setWidth 32)),
    (tagKeyRole, .number keyInfo.role),
    (tagKeyDomain, .number (keyInfo.domain.setWidth 32))]

/-- A part of the address space that has some bytes, and not too many. -/
structure Usable (abi : Abi) (area : Area) : Prop where
  address : area.addr ≠ 0
  space : area.addr < 256 ^ abi.pointerSize
  some_ : 0 < area.size
  small : area.size ≤ maxKeyMaterialLen

variable {area : Area}

theorem Usable.blobLen (usable : Usable abi area) {tag : BitVec 32} (bytes : isBytes tag = true) :
    blobLens [blobParam abi tag area] = area.size := by
  have size : area.size < 2 ^ 32 := by
    have small := usable.small
    rw [maxKeyMaterialLen] at small
    omega
  rw [blobLens, map_singleton, sum_singleton, HksParam.blobLen, HksParam.hasBlob,
    tag_blobParam, bytes, if_pos rfl, blobSize_blobParam abi tag size]

theorem Usable.addParams (usable : Usable abi area) (tag : BitVec 32)
    (bytes : isBytes tag = true) {set : HksParamSet abi} {added : List (HksParam abi)}
    (growing : Growing added set) (few : added.length ≤ 10) (lens : blobLens added ≤ 64) :
    ∃ after, addParams set [blobParam abi tag area] = pure after ∧
      Growing (added ++ [blobParam abi tag area]) after := by
  have small := usable.small
  rw [maxKeyMaterialLen] at small
  have sizes : 10 < abi.defaultParamCnt ∧ abi.paramSize ≤ 24 := by
    cases abi <;> decide
  have array : abi.paramSize * added.length ≤ 24 * 10 := Nat.mul_le_mul sizes.2 few
  refine result_addParams growing ⟨?_, ?_, ?_, ?_⟩ ?_
  · rw [setSize, headerSize, paramSetMaxSize]
    omega
  · rw [length_singleton]
    omega
  · rw [length_singleton]
    omega
  · rintro param member -
    rw [mem_singleton.mp member, blobData_blobParam abi tag usable.space]
    exact usable.address
  · rw [setSize_append, usable.blobLen bytes, setSize, headerSize, length_singleton]
    omega

theorem blobLens_fixedParams (keyInfo : HksStoreKeyInfo) : blobLens (fixedParams abi keyInfo) = 0 :=
  blobLens_eq_zero (map_eq_nil_iff.mp (blobs_fixedParams abi keyInfo))

theorem addParams_fixedParams {set : HksParamSet abi} (growing : Growing [] set)
    (keyInfo : HksStoreKeyInfo) : ∃ after, addParams set (fixedParams abi keyInfo) = pure after ∧
      Growing (fixedParams abi keyInfo) after := by
  have sizes : 9 ≤ abi.defaultParamCnt ∧ abi.paramSize ≤ 24 := by
    cases abi <;> decide
  have none_ : ∀ param ∈ fixedParams abi keyInfo, param.hasBlob = true → param.blobData ≠ 0 := by
    intro param member has
    have nothing := blobs_fixedParams abi keyInfo
    rw [blobs, map_eq_nil_iff, filter_eq_nil_iff] at nothing
    exact absurd has (nothing param member)
  have size : setSize (fixedParams abi keyInfo) < 2 ^ 32 := by
    have length : (fixedParams abi keyInfo).length = 9 := rfl
    rw [setSize, blobLens_fixedParams, length, headerSize]
    omega
  exact result_addParams growing
    ⟨by simp only [setSize, headerSize, paramSetMaxSize, blobLens, length_nil, map_nil,
      sum_nil]; omega, sizes.1, Nat.zero_le _, none_⟩ size

variable {tmpBuf : Nat} {keyInfo : HksStoreKeyInfo}

theorem usable_authIdArea (valid : Valid keyInfo)
    (space : tmpBuf + keyInfo.keyInfoLen.toNat ≤ 256 ^ abi.pointerSize)
    (some_ : keyInfo.authIdSize ≠ 0) : Usable abi (authIdArea tmpBuf keyInfo) := by
  have sum := valid.sum
  have size : 0 < keyInfo.authIdSize.toNat := by
    rw [Nat.pos_iff_ne_zero]
    exact fun zero => some_ (BitVec.eq_of_toNat_eq zero)
  refine ⟨?_, ?_, size, ?_⟩
  · rw [authIdArea, sizeofKeyInfo]
    dsimp only
    omega
  · rw [authIdArea]
    dsimp only
    omega
  · rw [authIdArea, maxKeyMaterialLen]
    dsimp only
    omega

variable {key : Option Area}

theorem result_addStorageParams {set : HksParamSet abi} {keyInfoBlob : Area}
    (growing : Growing [] set) (size : sizeofKeyInfo ≤ keyInfoBlob.size)
    (valid : Valid (keyInfoAt memory keyInfoBlob.addr))
    (space : keyInfoBlob.addr + (keyInfoAt memory keyInfoBlob.addr).keyInfoLen.toNat ≤
      256 ^ abi.pointerSize) (usable : ∀ area ∈ key, Usable abi area) :
    ∃ after, (addStorageParams memory key keyInfoBlob set).result = .ok after ∧
      Growing (storageParams abi keyInfoBlob.addr (keyInfoAt memory keyInfoBlob.addr) key)
        after := by
  generalize found : keyInfoAt memory keyInfoBlob.addr = keyInfo at valid space ⊢
  obtain ⟨fixed, addFixed, growing⟩ := addParams_fixedParams growing keyInfo
  have auth : ∃ after, addAuthId keyInfoBlob.addr keyInfo fixed = pure after ∧
      Growing (fixedParams abi keyInfo ++ (if keyInfo.authIdSize ≠ 0 then
        [blobParam abi tagKeyAuthId (authIdArea keyInfoBlob.addr keyInfo)] else [])) after ∧
      (if keyInfo.authIdSize ≠ 0 then
        [blobParam abi tagKeyAuthId (authIdArea keyInfoBlob.addr keyInfo)] else []).length ≤ 1 ∧
      blobLens (if keyInfo.authIdSize ≠ 0 then
        [blobParam abi tagKeyAuthId (authIdArea keyInfoBlob.addr keyInfo)] else []) ≤ 64 := by
    unfold addAuthId
    split_ifs with some_
    · have area := usable_authIdArea valid space some_
      obtain ⟨after, add, grown⟩ := area.addParams tagKeyAuthId rfl growing
        (Nat.le_of_ble_eq_true rfl) (by rw [blobLens_fixedParams]; omega)
      refine ⟨after, add, grown, Nat.le_refl _, ?_⟩
      rw [area.blobLen rfl]
      exact valid.authId
    · exact ⟨fixed, rfl, by rwa [append_nil], Nat.zero_le _, Nat.zero_le _⟩
  obtain ⟨last, addAuth, growing, few, lens⟩ := auth
  have last_ : ∃ after, addKey key last = pure after ∧
      Growing (storageParams abi keyInfoBlob.addr keyInfo key) after := by
    rw [storageParams, ← append_assoc]
    cases key with
    | none => exact ⟨last, rfl, by rwa [Option.toList_none, map_nil, append_nil]⟩
    | some area =>
      refine (usable area rfl).addParams tagKey rfl growing ?_ ?_
      · rw [length_append]
        exact Nat.add_le_add (Nat.le_refl 9) few
      · rw [blobLens_append, blobLens_fixedParams, Nat.zero_add]
        exact lens
  obtain ⟨after, addLast, growing⟩ := last_
  refine ⟨after, ?_, growing⟩
  have right : hksIsKeyInfoLenInvalid keyInfo = false := hksIsKeyInfoLenInvalid_eq_false.mpr valid
  rw [addStorageParams, if_neg (Nat.not_lt.mpr size)]
  refine Reading.result_bind.mpr ⟨keyInfo, by rw [result_readKeyInfo, found], ?_⟩
  rw [right]
  refine Reading.result_bind.mpr ⟨fixed, by rw [addFixed]; rfl, ?_⟩
  exact Reading.result_bind.mpr ⟨last, by rw [addAuth]; rfl, by rw [addLast]; rfl⟩

theorem storageParams_fits
    (valid : Valid keyInfo) (space : tmpBuf + keyInfo.keyInfoLen.toNat ≤ 256 ^ abi.pointerSize)
    (usable : ∀ area ∈ key, Usable abi area) :
    setSize (storageParams abi tmpBuf keyInfo key) ≤ paramSetMaxSize ∧
      LastFull (storageParams abi tmpBuf keyInfo key) := by
  have full : ∀ {area : Area} {tag : BitVec 32}, Usable abi area →
      (blobParam abi tag area).blobSize ≠ 0 := by
    intro area tag area_ zero
    have small := area_.small
    have some_ := area_.some_
    rw [maxKeyMaterialLen] at small
    have size := @blobSize_blobParam abi tag area (by omega)
    exact absurd (size.symm.trans (congrArg BitVec.toNat zero)) (Nat.pos_iff_ne_zero.mp some_)
  constructor
  · have wide : abi.paramSize ≤ 24 := by
      cases abi <;> decide
    have auth : (if keyInfo.authIdSize ≠ 0 then
          [blobParam abi tagKeyAuthId (authIdArea tmpBuf keyInfo)] else []).length ≤ 1 ∧
        blobLens (if keyInfo.authIdSize ≠ 0 then
          [blobParam abi tagKeyAuthId (authIdArea tmpBuf keyInfo)] else []) ≤ 64 := by
      split_ifs with some_
      · rw [(usable_authIdArea valid space some_).blobLen rfl]
        exact ⟨Nat.le_refl _, valid.authId⟩
      · exact ⟨Nat.zero_le _, Nat.zero_le _⟩
    have last : (key.toList.map (blobParam abi tagKey)).length ≤ 1 ∧
        blobLens (key.toList.map (blobParam abi tagKey)) ≤ maxKeyMaterialLen := by
      cases key with
      | none => exact ⟨Nat.zero_le _, Nat.zero_le _⟩
      | some area =>
        rw [Option.toList_some, map_singleton, (usable area rfl).blobLen rfl]
        exact ⟨Nat.le_refl _, (usable area rfl).small⟩
    have length : (storageParams abi tmpBuf keyInfo key).length ≤ 11 := by
      rw [storageParams, length_append, length_append]
      exact Nat.add_le_add (Nat.le_refl 9) (Nat.add_le_add auth.1 last.1)
    have lens : blobLens (storageParams abi tmpBuf keyInfo key) ≤ 64 + maxKeyMaterialLen := by
      rw [storageParams, blobLens_append, blobLens_append, blobLens_fixedParams, Nat.zero_add]
      exact Nat.add_le_add auth.2 last.2
    have array := Nat.mul_le_mul wide length
    rw [maxKeyMaterialLen] at lens
    rw [setSize, headerSize, paramSetMaxSize]
    omega
  · intro param last
    obtain ⟨member, has⟩ := mem_filter.mp (mem_of_getLast? last)
    rw [storageParams, mem_append, mem_append] at member
    rcases member with fixed | auth | own
    · have nothing := blobs_fixedParams abi keyInfo
      rw [blobs, map_eq_nil_iff, filter_eq_nil_iff] at nothing
      exact absurd has (nothing param fixed)
    · split_ifs at auth with some_
      · rw [mem_singleton.mp auth]
        exact full (usable_authIdArea valid space some_)
      · exact absurd auth not_mem_nil
    · obtain ⟨area, member, rfl⟩ := mem_map.mp own
      exact full (usable area (Option.mem_toList.mp member))

theorem addedValue_uint32Param {tag : BitVec 32} (value : BitVec 32) (plain : isBytes tag = false) :
    addedValue memory (uint32Param abi tag value) = .number value := by
  rw [addedValue, HksParam.hasBlob, tag_uint32Param, plain, if_neg Bool.false_ne_true,
    paramUint32_uint32Param]

theorem Usable.addedValue (usable : Usable abi area) {tag : BitVec 32}
    (bytes : isBytes tag = true) :
    addedValue memory (blobParam abi tag area) = .bytes (area.bytes memory) := by
  have size : area.size < 2 ^ 32 := by
    have small := usable.small
    rw [maxKeyMaterialLen] at small
    omega
  rw [StorageAdapter.addedValue, HksParam.hasBlob, tag_blobParam, bytes, if_pos rfl,
    blobSize_blobParam abi tag size, blobData_blobParam abi tag usable.space]

theorem addedValue_storageParams
    (valid : Valid keyInfo) (space : tmpBuf + keyInfo.keyInfoLen.toNat ≤ 256 ^ abi.pointerSize)
    (usable : ∀ area ∈ key, Usable abi area) :
    ((storageParams abi tmpBuf keyInfo key).map fun param => (param.tag, addedValue memory param)) =
      fixedValues keyInfo ++ ((if keyInfo.authIdSize ≠ 0 then
            [(tagKeyAuthId, .bytes ((authIdArea tmpBuf keyInfo).bytes memory))] else []) ++
          key.toList.map fun area => (tagKey, .bytes (area.bytes memory))) := by
  rw [storageParams, map_append, map_append, map_map]
  congr 1
  · simp (disch := decide) only [fixedParams, fixedValues, map_cons, map_nil,
      tag_uint32Param, addedValue_uint32Param]
  · congr 1
    · split_ifs with some_
      · have area := usable_authIdArea valid space some_
        rw [map_singleton, tag_blobParam, area.addedValue rfl]
      · rfl
    · refine map_congr_left fun area member => ?_
      rw [Function.comp_apply, tag_blobParam,
        (usable area (Option.mem_toList.mp member)).addedValue rfl]

theorem setValues_translateKeyInfoBlobToParamSet {keyInfoBlob : Area}
    (init : heap.malloc .init defaultParamSetSize ≠ none)
    (build : ∀ size ≤ paramSetMaxSize, heap.malloc .build size ≠ none)
    (size : sizeofKeyInfo ≤ keyInfoBlob.size) (valid : Valid (keyInfoAt memory keyInfoBlob.addr))
    (space : keyInfoBlob.addr + (keyInfoAt memory keyInfoBlob.addr).keyInfoLen.toNat ≤
      256 ^ abi.pointerSize) (usable : ∀ area ∈ key, Usable abi area) :
    ∃ out, (translateKeyInfoBlobToParamSet heap memory key keyInfoBlob).result = .ok out ∧
      setValues abi out = fixedValues (keyInfoAt memory keyInfoBlob.addr) ++
        ((if (keyInfoAt memory keyInfoBlob.addr).authIdSize ≠ 0 then
            [(tagKeyAuthId, .bytes ((authIdArea keyInfoBlob.addr
              (keyInfoAt memory keyInfoBlob.addr)).bytes memory))] else []) ++
          key.toList.map fun area => (tagKey, .bytes (area.bytes memory))) := by
  obtain ⟨address, allocated⟩ := Option.ne_none_iff_exists'.mp init
  have made : hksInitParamSet heap = .ok ⟨address, .ofNat 32 headerSize, [],
      (heap.block .init defaultParamSetSize).drop headerSize⟩ := by
    rw [hksInitParamSet, allocated]
  obtain ⟨set, added, growing⟩ :=
    result_addStorageParams (growing_of_hksInitParamSet made) size valid space usable
  obtain ⟨small, last⟩ := storageParams_fits valid space usable
  obtain ⟨out, done, same⟩ := @built_of_growing abi memory _ heap set growing small last build
  refine ⟨out, ?_, ?_⟩
  · unfold translateKeyInfoBlobToParamSet
    rw [made]
    refine Reading.result_bind.mpr ⟨set, added, ?_⟩
    rw [buildReading, done]
    rfl
  · rw [setValues_eq same]
    exact addedValue_storageParams valid space usable

end Translated

end TowerSafe.StorageAdapter
