/-
This file embeds the format of the key-info files of `hks_rkc_rw.c`: a file is filled and extracted
field by field, with an offset that goes on behind every field, and it ends with a hash. What was
written is read again, the accesses stay inside of the buffer, and a file that differs in what the
hash covers is refused unless the hash collides.
-/

import TowerSafe.Library.Cursor
import TowerSafe.Huks.RootKey

namespace TowerSafe.RootKeyFile

open Library Cursor List
open RootKey (Failure ksfFlag ksfFlagLen ksfBufLen ksfDataLen getRootMaterial)

/-! ### Data -/

@[ext]
structure HksTime where
  hksYear : BitVec 16
  hksMon : BitVec 8
  hksDay : BitVec 8
  hksHour : BitVec 8
  hksMin : BitVec 8
  hksSec : BitVec 8
  deriving DecidableEq

@[ext]
structure HksRkcKsfData where
  version : BitVec 16
  rkCreatedTime : HksTime
  rkExpiredTime : HksTime
  rkMaterial1 : BitVec 256
  rkMaterial2 : BitVec 256
  rmkIter : BitVec 32
  rmkSalt : BitVec 256
  rmkHashAlg : BitVec 32
  rkRsv : BitVec 64
  mkCreatedTime : HksTime
  mkExpiredTime : HksTime
  mkEncryptAlg : BitVec 32
  mkIv : BitVec 128
  mkCiphertext : BitVec 384
  mkRsv : BitVec 64
  deriving DecidableEq

def hashLen : Nat := 32

def invalidArgument : Failure := .other 3

/-! ### Filling -/

def rkcFillKsfTime (time : HksTime) : Action Failure Unit := do
  fillNumber 2 time.hksYear
  fillNumber 1 time.hksMon
  fillNumber 1 time.hksDay
  fillNumber 1 time.hksHour
  fillNumber 1 time.hksMin
  fillNumber 1 time.hksSec
  pure ()

def rkcFillKsfRk (ksfData : HksRkcKsfData) : Action Failure Unit := do
  fillNumber 2 ksfData.version
  rkcFillKsfTime ksfData.rkCreatedTime
  rkcFillKsfTime ksfData.rkExpiredTime
  fillNumber 32 ksfData.rkMaterial1
  fillNumber 32 ksfData.rkMaterial2
  fillNumber 4 ksfData.rmkIter
  fillNumber 32 ksfData.rmkSalt
  fillNumber 4 ksfData.rmkHashAlg
  fillNumber 8 ksfData.rkRsv
  pure ()

def rkcFillKsfMk (ksfData : HksRkcKsfData) : Action Failure Unit := do
  rkcFillKsfTime ksfData.mkCreatedTime
  rkcFillKsfTime ksfData.mkExpiredTime
  fillNumber 4 ksfData.mkEncryptAlg
  fillNumber 16 ksfData.mkIv
  fillNumber 48 ksfData.mkCiphertext
  fillNumber 8 ksfData.mkRsv
  pure ()

section Hash

variable (hash : Bytes → BitVec 256)

/-- The length of what is hashed: from behind the flag to the offset, in 32 bits. -/
def hashSrcSize (ksfBufOffset : Nat) : Nat := (ksfBufOffset + 2 ^ 32 - ksfFlagLen) % 2 ^ 32

/-- `HksCryptoHalHash` of what is hashed. -/
def hksCryptoHalHash : Action Failure (BitVec 256) := fun cursor =>
  (.ok (hash (cursor.buf.slice ksfFlagLen (hashSrcSize cursor.offset))),
    cursor.access ⟨ksfFlagLen, hashSrcSize cursor.offset⟩)

def rkcFillKsfHash : Action Failure Unit := fun cursor =>
  if cursor.buf.length < ksfFlagLen ∨ cursor.offset ≤ ksfFlagLen ∨
      cursor.buf.length < cursor.offset then
    fail invalidArgument cursor
  else
    (hksCryptoHalHash hash >>= fillNumber hashLen) cursor

def rkcFillKsfBuf (ksfData : HksRkcKsfData) : Action Failure Unit := do
  fill ksfFlag
  rkcFillKsfRk ksfData
  rkcFillKsfMk ksfData
  rkcFillKsfHash hash

/-! ### Extracting -/

def rkcExtractKsfFileFlag : Action Failure Unit := do
  let fileFlag ← extract ksfFlagLen
  if fileFlag ≠ ksfFlag then fail .readFileFail
  else pure ()

def rkcExtractTime : Action Failure HksTime := do
  let hksYear ← extractNumber 16 2
  let hksMon ← extractNumber 8 1
  let hksDay ← extractNumber 8 1
  let hksHour ← extractNumber 8 1
  let hksMin ← extractNumber 8 1
  let hksSec ← extractNumber 8 1
  pure ⟨hksYear, hksMon, hksDay, hksHour, hksMin, hksSec⟩

def rkcExtractKsfRk (ksfData : HksRkcKsfData) : Action Failure HksRkcKsfData := do
  let version ← extractNumber 16 2
  let rkCreatedTime ← rkcExtractTime
  let rkExpiredTime ← rkcExtractTime
  let rkMaterial1 ← extractNumber 256 32
  let rkMaterial2 ← extractNumber 256 32
  let rmkIter ← extractNumber 32 4
  let rmkSalt ← extractNumber 256 32
  let rmkHashAlg ← extractNumber 32 4
  let rkRsv ← extractNumber 64 8
  pure { ksfData with
    version, rkCreatedTime, rkExpiredTime, rkMaterial1, rkMaterial2, rmkIter, rmkSalt, rmkHashAlg,
    rkRsv }

def rkcExtractKsfMk (ksfData : HksRkcKsfData) : Action Failure HksRkcKsfData := do
  let mkCreatedTime ← rkcExtractTime
  let mkExpiredTime ← rkcExtractTime
  let mkEncryptAlg ← extractNumber 32 4
  let mkIv ← extractNumber 128 16
  let mkCiphertext ← extractNumber 384 48
  let mkRsv ← extractNumber 64 8
  pure { ksfData with mkCreatedTime, mkExpiredTime, mkEncryptAlg, mkIv, mkCiphertext, mkRsv }

def rkcExtractKsfHash : Action Failure Unit := do
  let hashResult ← hksCryptoHalHash hash
  let ksfHash ← extractNumber 256 hashLen
  if hashResult ≠ ksfHash then fail .invalidKeyFile else pure ()

/-- `RkcExtractKsfBuf`, for data that it overwrites. -/
def rkcExtractKsfBuf (ksfData : HksRkcKsfData) : Action Failure HksRkcKsfData := do
  rkcExtractKsfFileFlag
  let ksfData ← rkcExtractKsfRk ksfData
  let ksfData ← rkcExtractKsfMk ksfData
  rkcExtractKsfHash hash
  pure ksfData

/-! ### Files -/

/-- The buffer is stored when it was filled. -/
def hksStoreKeyBlob : Except Failure Unit × Cursor → Except Failure Bytes × Cursor
  | (.error failure, after) => (.error failure, after)
  | (.ok _, after) => (.ok after.buf, after)

/-- `HksRkcWriteKsf`, with memory and storage that do not fail: the file, and the accesses of the
buffer. -/
def hksRkcWriteKsf (ksfData : HksRkcKsfData) : Except Failure Bytes × Cursor :=
  hksStoreKeyBlob (rkcFillKsfBuf hash ksfData (.start (List.replicate ksfBufLen 0)))

/-- `HksRkcReadKsf`, with memory that does not fail: the data, and the accesses of the buffer. -/
def hksRkcReadKsf (file : Option Bytes) (ksfData : HksRkcKsfData) :
    Except Failure HksRkcKsfData × Cursor :=
  match getRootMaterial file with
  | .error failure => fail failure (.start (List.replicate ksfBufLen 0))
  | .ok tmpKsf => rkcExtractKsfBuf hash ksfData (.start tmpKsf)

end Hash

/-! ### Layout -/

namespace HksTime

def fields (time : HksTime) : List Bytes :=
  [Bytes.ofNat 2 time.hksYear.toNat, Bytes.ofNat 1 time.hksMon.toNat,
    Bytes.ofNat 1 time.hksDay.toNat, Bytes.ofNat 1 time.hksHour.toNat,
    Bytes.ofNat 1 time.hksMin.toNat, Bytes.ofNat 1 time.hksSec.toNat]

def bytes (time : HksTime) : Bytes := time.fields.flatten

/-- The time that stands from a place on. -/
def ofBytes (buf : Bytes) (place : Nat) : HksTime where
  hksYear := buf.number 16 place 2
  hksMon := buf.number 8 (place + 2) 1
  hksDay := buf.number 8 (place + 3) 1
  hksHour := buf.number 8 (place + 4) 1
  hksMin := buf.number 8 (place + 5) 1
  hksSec := buf.number 8 (place + 6) 1

theorem length_bytes (time : HksTime) : time.bytes.length = 7 := by
  rfl

theorem ofBytes_eq {buf : Bytes} {place : Nat} {time : HksTime}
    (same : buf.slice place 7 = time.bytes) : ofBytes buf place = time := by
  have field := Bytes.slice_flatten time.fields []
  rw [append_nil] at field
  have part : ∀ {bits start width : Nat}, start + width ≤ 7 →
      buf.number bits (place + start) width = time.bytes.number bits start width :=
    fun inside => by rw [← same, Bytes.number_slice _ _ inside]
  ext1
  · exact (part (by omega : 0 + 2 ≤ 7)).trans
      (Bytes.number_eq (field 0 (Nat.le_of_ble_eq_true rfl)) (by decide))
  · exact (part (by omega)).trans
      (Bytes.number_eq (field 1 (Nat.le_of_ble_eq_true rfl)) (by decide))
  · exact (part (by omega)).trans
      (Bytes.number_eq (field 2 (Nat.le_of_ble_eq_true rfl)) (by decide))
  · exact (part (by omega)).trans
      (Bytes.number_eq (field 3 (Nat.le_of_ble_eq_true rfl)) (by decide))
  · exact (part (by omega)).trans
      (Bytes.number_eq (field 4 (Nat.le_of_ble_eq_true rfl)) (by decide))
  · exact (part (by omega)).trans
      (Bytes.number_eq (field 5 (Nat.le_of_ble_eq_true rfl)) (by decide))

def toNumber (time : HksTime) : BitVec 56 := .ofNat 56 time.bytes.toNat

end HksTime

namespace HksRkcKsfData

/-- The fields of `RkcFillKsfRk`. -/
def rkFields (data : HksRkcKsfData) : List Bytes :=
  [Bytes.ofNat 2 data.version.toNat, data.rkCreatedTime.bytes, data.rkExpiredTime.bytes,
    Bytes.ofNat 32 data.rkMaterial1.toNat, Bytes.ofNat 32 data.rkMaterial2.toNat,
    Bytes.ofNat 4 data.rmkIter.toNat, Bytes.ofNat 32 data.rmkSalt.toNat,
    Bytes.ofNat 4 data.rmkHashAlg.toNat, Bytes.ofNat 8 data.rkRsv.toNat]

/-- The fields of `RkcFillKsfMk`. -/
def mkFields (data : HksRkcKsfData) : List Bytes :=
  [data.mkCreatedTime.bytes, data.mkExpiredTime.bytes, Bytes.ofNat 4 data.mkEncryptAlg.toNat,
    Bytes.ofNat 16 data.mkIv.toNat, Bytes.ofNat 48 data.mkCiphertext.toNat,
    Bytes.ofNat 8 data.mkRsv.toNat]

def bytes (data : HksRkcKsfData) : Bytes := data.rkFields.flatten ++ data.mkFields.flatten

theorem length_rkFields (data : HksRkcKsfData) : data.rkFields.flatten.length = 128 := by
  simp only [rkFields, length_flatten, map_cons, map_nil, Bytes.length_ofNat,
    HksTime.length_bytes]
  rfl

theorem length_mkFields (data : HksRkcKsfData) : data.mkFields.flatten.length = 90 := by
  simp only [mkFields, length_flatten, map_cons, map_nil, Bytes.length_ofNat,
    HksTime.length_bytes]
  rfl

theorem length_bytes (data : HksRkcKsfData) : data.bytes.length = ksfDataLen := by
  rw [bytes, length_append, length_rkFields, length_mkFields]
  rfl

/-- The data of a buffer. -/
def ofBytes (buf : Bytes) : HksRkcKsfData where
  version := buf.number 16 8 2
  rkCreatedTime := .ofBytes buf 10
  rkExpiredTime := .ofBytes buf 17
  rkMaterial1 := buf.number 256 24 32
  rkMaterial2 := buf.number 256 56 32
  rmkIter := buf.number 32 88 4
  rmkSalt := buf.number 256 92 32
  rmkHashAlg := buf.number 32 124 4
  rkRsv := buf.number 64 128 8
  mkCreatedTime := .ofBytes buf 136
  mkExpiredTime := .ofBytes buf 143
  mkEncryptAlg := buf.number 32 150 4
  mkIv := buf.number 128 154 16
  mkCiphertext := buf.number 384 170 48
  mkRsv := buf.number 64 218 8

theorem ofBytes_append (data : HksRkcKsfData) (after : Bytes) :
    ofBytes (ksfFlag ++ (data.bytes ++ after)) = data := by
  have field := Bytes.slice_flatten (ksfFlag :: (data.rkFields ++ data.mkFields)) after
  have whole : (ksfFlag :: (data.rkFields ++ data.mkFields)).flatten ++ after =
      ksfFlag ++ (data.bytes ++ after) := by
    rw [flatten_cons, flatten_append, bytes, append_assoc]
  rw [whole] at field
  ext1
  · exact Bytes.number_eq (field 1 (Nat.le_of_ble_eq_true rfl)) (by decide)
  · exact HksTime.ofBytes_eq (field 2 (Nat.le_of_ble_eq_true rfl))
  · exact HksTime.ofBytes_eq (field 3 (Nat.le_of_ble_eq_true rfl))
  · exact Bytes.number_eq (field 4 (Nat.le_of_ble_eq_true rfl)) (by decide)
  · exact Bytes.number_eq (field 5 (Nat.le_of_ble_eq_true rfl)) (by decide)
  · exact Bytes.number_eq (field 6 (Nat.le_of_ble_eq_true rfl)) (by decide)
  · exact Bytes.number_eq (field 7 (Nat.le_of_ble_eq_true rfl)) (by decide)
  · exact Bytes.number_eq (field 8 (Nat.le_of_ble_eq_true rfl)) (by decide)
  · exact Bytes.number_eq (field 9 (Nat.le_of_ble_eq_true rfl)) (by decide)
  · exact HksTime.ofBytes_eq (field 10 (Nat.le_of_ble_eq_true rfl))
  · exact HksTime.ofBytes_eq (field 11 (Nat.le_of_ble_eq_true rfl))
  · exact Bytes.number_eq (field 12 (Nat.le_of_ble_eq_true rfl)) (by decide)
  · exact Bytes.number_eq (field 13 (Nat.le_of_ble_eq_true rfl)) (by decide)
  · exact Bytes.number_eq (field 14 (Nat.le_of_ble_eq_true rfl)) (by decide)
  · exact Bytes.number_eq (field 15 (Nat.le_of_ble_eq_true rfl)) (by decide)

end HksRkcKsfData

/-! ### What is filled in -/

theorem fills_rkcFillKsfTime (time : HksTime) : Fills (rkcFillKsfTime time) time.bytes :=
  fills_bind (fills_fill _) <| fills_bind (fills_fill _) <| fills_bind (fills_fill _) <|
    fills_bind (fills_fill _) <| fills_bind (fills_fill _) <| fills_bind (fills_fill _) fills_pure

theorem fills_rkcFillKsfRk (data : HksRkcKsfData) :
    Fills (rkcFillKsfRk data) data.rkFields.flatten :=
  fills_bind (fills_fill _) <| fills_bind (fills_rkcFillKsfTime _) <|
    fills_bind (fills_rkcFillKsfTime _) <| fills_bind (fills_fill _) <|
    fills_bind (fills_fill _) <| fills_bind (fills_fill _) <| fills_bind (fills_fill _) <|
    fills_bind (fills_fill _) <| fills_bind (fills_fill _) fills_pure

theorem fills_rkcFillKsfMk (data : HksRkcKsfData) :
    Fills (rkcFillKsfMk data) data.mkFields.flatten :=
  fills_bind (fills_rkcFillKsfTime _) <| fills_bind (fills_rkcFillKsfTime _) <|
    fills_bind (fills_fill _) <| fills_bind (fills_fill _) <| fills_bind (fills_fill _) <|
    fills_bind (fills_fill _) fills_pure

/-! ### What is extracted -/

theorem extracts_rkcExtractTime (place : Nat) :
    Extracts rkcExtractTime place 7 fun buf => .ok (.ofBytes buf place) := by
  exact extracts_bind (extracts_extractNumber 16 2) fun _ =>
    extracts_bind (extracts_extractNumber 8 1) fun _ =>
    extracts_bind (extracts_extractNumber 8 1) fun _ =>
    extracts_bind (extracts_extractNumber 8 1) fun _ =>
    extracts_bind (extracts_extractNumber 8 1) fun _ =>
    extracts_bind (extracts_extractNumber 8 1) fun _ => extracts_pure _

theorem extracts_rkcExtractKsfFileFlag : Extracts rkcExtractKsfFileFlag 0 ksfFlagLen fun buf =>
      if buf.slice 0 ksfFlagLen ≠ ksfFlag then .error .readFileFail else .ok () := by
  exact extracts_bind (extracts_extract _) fun _ => extracts_check _ _

theorem extracts_rkcExtractKsfRk (old : HksRkcKsfData) :
    Extracts (rkcExtractKsfRk old) 8 128 fun buf =>
      let data := HksRkcKsfData.ofBytes buf
      .ok ⟨data.version, data.rkCreatedTime, data.rkExpiredTime, data.rkMaterial1,
        data.rkMaterial2, data.rmkIter, data.rmkSalt, data.rmkHashAlg, data.rkRsv,
        old.mkCreatedTime, old.mkExpiredTime, old.mkEncryptAlg, old.mkIv, old.mkCiphertext,
        old.mkRsv⟩ := by
  exact extracts_bind (extracts_extractNumber 16 2) fun _ =>
    extracts_bind (extracts_rkcExtractTime _) fun _ =>
    extracts_bind (extracts_rkcExtractTime _) fun _ =>
    extracts_bind (extracts_extractNumber 256 32) fun _ =>
    extracts_bind (extracts_extractNumber 256 32) fun _ =>
    extracts_bind (extracts_extractNumber 32 4) fun _ =>
    extracts_bind (extracts_extractNumber 256 32) fun _ =>
    extracts_bind (extracts_extractNumber 32 4) fun _ =>
    extracts_bind (extracts_extractNumber 64 8) fun _ => extracts_pure _

theorem extracts_rkcExtractKsfMk (old : HksRkcKsfData) :
    Extracts (rkcExtractKsfMk old) 136 90 fun buf =>
      let data := HksRkcKsfData.ofBytes buf
      .ok ⟨old.version, old.rkCreatedTime, old.rkExpiredTime, old.rkMaterial1, old.rkMaterial2,
        old.rmkIter, old.rmkSalt, old.rmkHashAlg, old.rkRsv, data.mkCreatedTime,
        data.mkExpiredTime, data.mkEncryptAlg, data.mkIv, data.mkCiphertext, data.mkRsv⟩ := by
  exact extracts_bind (extracts_rkcExtractTime _) fun _ =>
    extracts_bind (extracts_rkcExtractTime _) fun _ =>
    extracts_bind (extracts_extractNumber 32 4) fun _ =>
    extracts_bind (extracts_extractNumber 128 16) fun _ =>
    extracts_bind (extracts_extractNumber 384 48) fun _ =>
    extracts_bind (extracts_extractNumber 64 8) fun _ => extracts_pure _

def covered (buf : Bytes) : Bytes := buf.slice ksfFlagLen ksfDataLen

def storedHash (buf : Bytes) : BitVec 256 := buf.number 256 (ksfFlagLen + ksfDataLen) hashLen

theorem hashSrcSize_eq : hashSrcSize (ksfFlagLen + ksfDataLen) = ksfDataLen := by decide

theorem extracts_hksCryptoHalHash (hash : Bytes → BitVec 256) :
    Extracts (hksCryptoHalHash hash) (ksfFlagLen + ksfDataLen) 0 fun buf =>
      .ok (hash (covered buf)) := by
  rintro ⟨buf, offset, accesses⟩ rfl room
  have result : hksCryptoHalHash hash ⟨buf, ksfFlagLen + ksfDataLen, accesses⟩ =
      (.ok (hash (covered buf)), access ⟨buf, ksfFlagLen + ksfDataLen, accesses⟩
        ⟨ksfFlagLen, ksfDataLen⟩) := by
    rw [hksCryptoHalHash, hashSrcSize_eq, covered]
  exact ⟨_, result, rfl, fun _ => rfl, fun contained => contained.access room⟩

theorem extracts_rkcExtractKsfHash (hash : Bytes → BitVec 256) :
    Extracts (rkcExtractKsfHash hash) (ksfFlagLen + ksfDataLen) hashLen fun buf =>
      if hash (covered buf) ≠ storedHash buf then .error .invalidKeyFile else .ok () := by
  exact extracts_bind (extracts_hksCryptoHalHash hash) fun _ =>
    extracts_bind (extracts_extractNumber 256 hashLen) fun _ => extracts_check _ _

def reading (hash : Bytes → BitVec 256) (buf : Bytes) : Except Failure HksRkcKsfData :=
  if buf.slice 0 ksfFlagLen ≠ ksfFlag then .error .readFileFail
  else if hash (covered buf) ≠ storedHash buf then .error .invalidKeyFile
  else .ok (.ofBytes buf)

theorem extracts_rkcExtractKsfBuf (hash : Bytes → BitVec 256) (old : HksRkcKsfData) :
    Extracts (rkcExtractKsfBuf hash old) 0 ksfBufLen (reading hash) := by
  refine Extracts.of_eq (extracts_bind extracts_rkcExtractKsfFileFlag fun _ =>
    extracts_bind (extracts_rkcExtractKsfRk old) fun _ =>
    extracts_bind (extracts_rkcExtractKsfMk _) fun _ =>
    extracts_bind (extracts_rkcExtractKsfHash hash) fun _ => extracts_pure _) rfl fun buf => ?_
  rw [reading]
  split <;> [rfl; skip]
  split <;> rfl

/-! ### The files -/

section File

variable (hash : Bytes → BitVec 256)

def fileOf (data : HksRkcKsfData) : Bytes :=
  ksfFlag ++ (data.bytes ++ Bytes.ofNat hashLen (hash data.bytes).toNat)

theorem length_fileOf (data : HksRkcKsfData) : (fileOf hash data).length = ksfBufLen := by
  rw [fileOf, length_append, length_append, data.length_bytes, Bytes.length_ofNat]
  rfl

theorem covered_append (data : HksRkcKsfData) (after : Bytes) :
    covered (ksfFlag ++ (data.bytes ++ after)) = data.bytes := by
  have part := Bytes.slice_append ksfFlag data.bytes after
  rwa [data.length_bytes] at part

theorem storedHash_fileOf (data : HksRkcKsfData) :
    storedHash (fileOf hash data) = hash data.bytes := by
  have part := Bytes.slice_append (ksfFlag ++ data.bytes)
    (Bytes.ofNat hashLen (hash data.bytes).toNat) []
  rw [append_nil, append_assoc, length_append, data.length_bytes,
    Bytes.length_ofNat] at part
  exact Bytes.number_eq part (by decide)

theorem rkcFillKsfHash_eq {data : HksRkcKsfData} {after : Bytes} (length : after.length = hashLen)
    {accesses : List Area} (contained : ∀ area ∈ accesses, area.Inside ⟨0, ksfBufLen⟩) :
    ∃ later, rkcFillKsfHash hash ⟨ksfFlag ++ (data.bytes ++ after), ksfFlagLen + ksfDataLen,
        accesses⟩ = (.ok (), ⟨fileOf hash data, ksfBufLen, later⟩) ∧
      ∀ area ∈ later, area.Inside ⟨0, ksfBufLen⟩ := by
  have whole : (ksfFlag ++ (data.bytes ++ after)).length = ksfBufLen := by
    rw [length_append, length_append, data.length_bytes, length]
    rfl
  have room : ¬((ksfFlag ++ (data.bytes ++ after)).length < ksfFlagLen ∨
      ksfFlagLen + ksfDataLen ≤ ksfFlagLen ∨
      (ksfFlag ++ (data.bytes ++ after)).length < ksfFlagLen + ksfDataLen) := by
    rw [whole]
    decide
  have hashed : (ksfFlag ++ (data.bytes ++ after)).slice ksfFlagLen
      (hashSrcSize (ksfFlagLen + ksfDataLen)) = data.bytes := by
    exact covered_append data after
  have filled : (ksfFlag ++ (data.bytes ++ after)).overwrite (ksfFlagLen + ksfDataLen)
      (Bytes.ofNat hashLen (hash data.bytes).toNat) = fileOf hash data := by
    have over_ := @Bytes.overwrite_append (ksfFlag ++ data.bytes) after
      (Bytes.ofNat hashLen (hash data.bytes).toNat) [] (by rw [Bytes.length_ofNat, length])
    rwa [append_nil, append_nil, length_append, data.length_bytes,
      append_assoc, append_assoc] at over_
  refine ⟨accesses ++ [⟨ksfFlagLen, ksfDataLen⟩] ++ [⟨ksfFlagLen + ksfDataLen, hashLen⟩], ?_, ?_⟩
  · rw [rkcFillKsfHash, if_neg room, bind_apply, hksCryptoHalHash]
    rw [hashed, andThen, fillNumber, fill]
    dsimp only [access]
    rw [filled, Bytes.length_ofNat]
    rfl
  · intro area member
    rcases mem_append.mp member with member | member
    · rcases mem_append.mp member with member | member
      · exact contained area member
      · rw [mem_singleton.mp member]
        decide
    · rw [mem_singleton.mp member]
      decide

theorem rkcFillKsfBuf_eq (data : HksRkcKsfData) :
    ∃ accesses, rkcFillKsfBuf hash data (.start (List.replicate ksfBufLen 0)) =
        (.ok (), ⟨fileOf hash data, ksfBufLen, accesses⟩) ∧
      ∀ area ∈ accesses, area.Inside ⟨0, ksfBufLen⟩ := by
  have fills : Fills (fill ksfFlag >>= fun _ => rkcFillKsfRk data >>= fun _ =>
      rkcFillKsfMk data : Action Failure Unit) (ksfFlag ++ data.bytes) :=
    fills_bind (fills_fill ksfFlag) (fills_bind (fills_rkcFillKsfRk data) (fills_rkcFillKsfMk data))
  have length : (ksfFlag ++ data.bytes).length = ksfFlagLen + ksfDataLen := by
    rw [length_append, data.length_bytes]
    rfl
  obtain ⟨accesses, result, contained⟩ := fills (.start (List.replicate ksfBufLen 0)) (by
    rw [Cursor.start, length, length_replicate]
    decide)
  have buf : Bytes.overwrite (List.replicate ksfBufLen 0) 0 (ksfFlag ++ data.bytes) =
      ksfFlag ++ (data.bytes ++ List.replicate hashLen 0) := by
    rw [Bytes.overwrite, length, take_zero, nil_append, append_assoc,
      drop_replicate]
    rfl
  have inside : ∀ area ∈ accesses, area.Inside ⟨0, ksfBufLen⟩ := by
    have inside := contained (contained_start _)
    rwa [Cursor.start, length_replicate] at inside
  obtain ⟨later, last, within⟩ := rkcFillKsfHash_eq hash
    (length_replicate : (List.replicate hashLen (0 : BitVec 8)).length = hashLen) inside
  refine ⟨later, ?_, within⟩
  have split_ : rkcFillKsfBuf hash data = fill ksfFlag >>= (fun _ => rkcFillKsfRk data >>= fun _ =>
      rkcFillKsfMk data) >>= fun _ => rkcFillKsfHash hash := by
    simp only [bind_assoc]
    rfl
  rw [split_, bind_apply, result]
  dsimp only [Cursor.start, andThen]
  rw [buf, length]
  exact last

theorem hksRkcWriteKsf_eq (data : HksRkcKsfData) :
    ∃ accesses, hksRkcWriteKsf hash data = (.ok (fileOf hash data),
        ⟨fileOf hash data, ksfBufLen, accesses⟩) ∧
      ∀ area ∈ accesses, area.Inside ⟨0, ksfBufLen⟩ := by
  obtain ⟨accesses, result, contained⟩ := rkcFillKsfBuf_eq hash data
  refine ⟨accesses, ?_, contained⟩
  rw [hksRkcWriteKsf, result]
  rfl

theorem hksRkcReadKsf_eq {buf : Bytes} (length : buf.length = ksfBufLen) (old : HksRkcKsfData) :
    (hksRkcReadKsf hash (some buf) old).1 = reading hash buf := by
  obtain ⟨after, result, -⟩ := extracts_rkcExtractKsfBuf hash old (.start buf) rfl
    (by rw [Cursor.start, length, Nat.zero_add])
  rw [hksRkcReadKsf, RootKey.getRootMaterial_eq length]
  dsimp only
  rw [result, Cursor.start]

theorem hksRkcReadKsf_inside (file : Option Bytes) (old : HksRkcKsfData) :
    ∀ area ∈ (hksRkcReadKsf hash file old).2.accesses, area.Inside ⟨0, ksfBufLen⟩ := by
  rw [hksRkcReadKsf]
  cases material : getRootMaterial file with
  | error failure => exact fun _ no => by cases no
  | ok tmpKsf =>
    have length := RootKey.length_getRootMaterial material
    obtain ⟨after, result, buf, -, contained⟩ := extracts_rkcExtractKsfBuf hash old (.start tmpKsf)
      rfl (by rw [Cursor.start, length, Nat.zero_add])
    have inside := contained (contained_start tmpKsf)
    dsimp only
    rw [Contained, buf, Cursor.start, length] at inside
    rw [result]
    exact inside

theorem reading_fileOf (data : HksRkcKsfData) : reading hash (fileOf hash data) = .ok data := by
  have flag : (fileOf hash data).slice 0 ksfFlagLen = ksfFlag :=
    Bytes.slice_append [] ksfFlag (data.bytes ++ Bytes.ofNat hashLen (hash data.bytes).toNat)
  have same : hash (covered (fileOf hash data)) = storedHash (fileOf hash data) := by
    rw [storedHash_fileOf, fileOf, covered_append]
  rw [reading, if_neg (not_not.mpr flag), if_neg (not_not.mpr same), fileOf, data.ofBytes_append]

theorem reading_ok {buf : Bytes} {data : HksRkcKsfData} (success : reading hash buf = .ok data) :
    hash (covered buf) = storedHash buf ∧ data = .ofBytes buf := by
  rw [reading] at success
  split at success
  · cases success
  · split at success
    · cases success
    · next same => exact ⟨not_not.mp same, (Except.ok.inj success).symm⟩

theorem getElem?_covered {buf : Bytes} {place : Nat} (behind : ksfFlagLen ≤ place)
    (before : place < ksfFlagLen + ksfDataLen) :
    (covered buf)[place - ksfFlagLen]? = buf[place]? := by
  rw [covered, Bytes.slice, List.getElem?_take_of_lt (by omega), List.getElem?_drop,
    Nat.add_sub_of_le behind]

end File

/-- The file of some data is read as the data; the writer and the reader stay inside of the buffer;
and a buffer in which a byte that the hash covers is not as it was written gives an error, or the
hash collides. -/
structure RoundTrip (hash : Bytes → BitVec 256) (data : HksRkcKsfData) : Prop where
  read : ∃ file, (hksRkcWriteKsf hash data).1 = .ok file ∧
    ∀ old, (hksRkcReadKsf hash (some file) old).1 = .ok data
  writer : ∀ area ∈ (hksRkcWriteKsf hash data).2.accesses, area.Inside ⟨0, ksfBufLen⟩
  reader : ∀ file old, ∀ area ∈ (hksRkcReadKsf hash file old).2.accesses,
    area.Inside ⟨0, ksfBufLen⟩
  changed : ∀ file, (hksRkcWriteKsf hash data).1 = .ok file → ∀ buf : Bytes,
    buf.length = ksfBufLen → storedHash buf = storedHash file →
    (∃ place, ksfFlagLen ≤ place ∧ place < ksfFlagLen + ksfDataLen ∧ buf[place]? ≠ file[place]?) →
    ∀ old, (∃ failure, (hksRkcReadKsf hash (some buf) old).1 = .error failure) ∨
      covered buf ≠ covered file ∧ hash (covered buf) = hash (covered file)

theorem roundTrip (hash : Bytes → BitVec 256) (data : HksRkcKsfData) : RoundTrip hash data := by
  obtain ⟨accesses, written, inside⟩ := hksRkcWriteKsf_eq hash data
  refine ⟨⟨fileOf hash data, by rw [written], fun old => ?_⟩, by rw [written]; exact inside,
    hksRkcReadKsf_inside hash, fun file same buf length kept differs old => ?_⟩
  · rw [hksRkcReadKsf_eq hash (length_fileOf hash data), reading_fileOf]
  · rw [written] at same
    obtain rfl := Except.ok.inj same
    obtain ⟨place, behind, before, other⟩ := differs
    have unequal : covered buf ≠ covered (fileOf hash data) := by
      intro equal
      rw [← getElem?_covered behind before, ← getElem?_covered behind before, equal] at other
      exact other rfl
    rw [hksRkcReadKsf_eq hash length]
    cases result : reading hash buf with
    | error failure => exact .inl ⟨failure, rfl⟩
    | ok value =>
      obtain ⟨stored, -⟩ := reading_ok hash result
      refine .inr ⟨unequal, ?_⟩
      rw [stored, kept, storedHash_fileOf, fileOf, covered_append]

/-! ### The files of the root key -/

/-- The data with times as numbers. -/
def HksRkcKsfData.toKsfData (data : HksRkcKsfData) : RootKey.KsfData :=
  ⟨data.version, data.rkCreatedTime.toNumber, data.rkExpiredTime.toNumber, data.rkMaterial1,
    data.rkMaterial2, data.rmkIter, data.rmkSalt, data.rmkHashAlg, data.rkRsv,
    data.mkCreatedTime.toNumber, data.mkExpiredTime.toNumber, data.mkEncryptAlg, data.mkIv,
    data.mkCiphertext, data.mkRsv⟩

end TowerSafe.RootKeyFile
