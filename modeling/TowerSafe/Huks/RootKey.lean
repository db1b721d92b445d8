/-
This file embeds `RkcInitKsf` of `hks_rkc.c` with the key-info files of `hks_rkc_rw.c`: the main key
is recovered from the first valid file, and the other files are repaired with it; without files a
new main key is made. The main key stays what it was exactly when no valid file is taken for a
missing one.
-/

import TowerSafe.Library.Bytes

namespace TowerSafe.RootKey

open Library List Option

/-! ### Key-info files -/

/-- `struct HksRkcKsfData`. A time has seven bytes. -/
structure KsfData where
  version : BitVec 16
  rkCreatedTime : BitVec 56
  rkExpiredTime : BitVec 56
  rkMaterial1 : BitVec 256
  rkMaterial2 : BitVec 256
  rmkIter : BitVec 32
  rmkSalt : BitVec 256
  rmkHashAlg : BitVec 32
  rkRsv : BitVec 64
  mkCreatedTime : BitVec 56
  mkExpiredTime : BitVec 56
  mkEncryptAlg : BitVec 32
  mkIv : BitVec 128
  mkCiphertext : BitVec 384
  mkRsv : BitVec 64
  deriving DecidableEq

def ksfFlag : Bytes :=
  [0x5F, 0x64, 0x97, 0x8D, 0x19, 0x4F, 0x89, 0xCF]

def ksfBufLen : Nat := 258

def ksfFlagLen : Nat := 8

/-- The bytes of the root key and of the main key, between the flag and the hash. -/
def ksfDataLen : Nat := 218

def ksfNum : Nat := 2

/-- `RkcFillKsfRk` and `RkcFillKsfMk`. -/
def KsfData.bytes (data : KsfData) : Bytes :=
  Bytes.ofNat 2 data.version.toNat ++ (Bytes.ofNat 7 data.rkCreatedTime.toNat ++
    (Bytes.ofNat 7 data.rkExpiredTime.toNat ++ (Bytes.ofNat 32 data.rkMaterial1.toNat ++
    (Bytes.ofNat 32 data.rkMaterial2.toNat ++ (Bytes.ofNat 4 data.rmkIter.toNat ++
    (Bytes.ofNat 32 data.rmkSalt.toNat ++ (Bytes.ofNat 4 data.rmkHashAlg.toNat ++
    (Bytes.ofNat 8 data.rkRsv.toNat ++ (Bytes.ofNat 7 data.mkCreatedTime.toNat ++
    (Bytes.ofNat 7 data.mkExpiredTime.toNat ++ (Bytes.ofNat 4 data.mkEncryptAlg.toNat ++
    (Bytes.ofNat 16 data.mkIv.toNat ++ (Bytes.ofNat 48 data.mkCiphertext.toNat ++
    Bytes.ofNat 8 data.mkRsv.toNat)))))))))))))

/-- `RkcExtractKsfRk` and `RkcExtractKsfMk`. -/
def KsfData.ofBytes (bytes : Bytes) : KsfData :=
  let version := Bytes.read 2 bytes
  let rkCreatedTime := Bytes.read 7 version.2
  let rkExpiredTime := Bytes.read 7 rkCreatedTime.2
  let rkMaterial1 := Bytes.read 32 rkExpiredTime.2
  let rkMaterial2 := Bytes.read 32 rkMaterial1.2
  let rmkIter := Bytes.read 4 rkMaterial2.2
  let rmkSalt := Bytes.read 32 rmkIter.2
  let rmkHashAlg := Bytes.read 4 rmkSalt.2
  let rkRsv := Bytes.read 8 rmkHashAlg.2
  let mkCreatedTime := Bytes.read 7 rkRsv.2
  let mkExpiredTime := Bytes.read 7 mkCreatedTime.2
  let mkEncryptAlg := Bytes.read 4 mkExpiredTime.2
  let mkIv := Bytes.read 16 mkEncryptAlg.2
  let mkCiphertext := Bytes.read 48 mkIv.2
  let mkRsv := Bytes.read 8 mkCiphertext.2
  ⟨.ofNat 16 version.1, .ofNat 56 rkCreatedTime.1, .ofNat 56 rkExpiredTime.1,
    .ofNat 256 rkMaterial1.1, .ofNat 256 rkMaterial2.1, .ofNat 32 rmkIter.1,
    .ofNat 256 rmkSalt.1, .ofNat 32 rmkHashAlg.1, .ofNat 64 rkRsv.1, .ofNat 56 mkCreatedTime.1,
    .ofNat 56 mkExpiredTime.1, .ofNat 32 mkEncryptAlg.1, .ofNat 128 mkIv.1,
    .ofNat 384 mkCiphertext.1, .ofNat 64 mkRsv.1⟩

/-- The return values other than `HKS_SUCCESS`. -/
inductive Failure where
  | mallocFail
  | readFileFail
  | writeFileFail
  | invalidKeyFile
  | cryptoEngineError
  | other (code : Nat)
  deriving DecidableEq

/-- The cryptographic functions: SHA-256, the two materials of two random numbers, and the main key
encrypted and decrypted with the root main key that the data gives. -/
structure Crypto where
  hash : Bytes → BitVec 256
  material : BitVec 256 → BitVec 256 → BitVec 256 × BitVec 256
  encrypt : KsfData → BitVec 256 → BitVec 384
  decrypt : KsfData → Option (BitVec 256)

/-- How a write of a file ends: it succeeds, or it fails before it opens the file, or after that,
and leaves some of it. -/
inductive WriteEvent where
  | done
  | refused (failure : Failure)
  | cut (failure : Failure) (left : Option Bytes)
  deriving DecidableEq

/-- What happens while the files are initialised. -/
structure Events where
  /-- `GetProcessInfo` in `RkcKsfExist`. -/
  processInfo : Bool
  /-- Whether the check for a file that exists says so. -/
  existCheck : Nat → Bool
  /-- What makes the read of a file fail, if anything. -/
  read : Nat → Option Failure
  write : Nat → WriteEvent
  /-- Memory for the data of the files. -/
  ksfMemory : Bool
  /-- Memory for the main key. -/
  mkMemory : Bool
  mask : Except Failure (BitVec 256)
  /-- What makes the root main key or the encryption fail. -/
  rmk : Option Failure
  randoms : Except Failure (BitVec 256 × BitVec 256)
  salt : Except Failure (BitVec 256)
  mainKey : Except Failure (BitVec 256)
  iv : Except Failure (BitVec 128)

/-- The main key in memory, with the times: `g_hksRkcMk`, and what `g_hksRkcCfg` has of it. -/
structure Memory where
  rkCreatedTime : BitVec 56
  rkExpiredTime : BitVec 56
  mkCreatedTime : BitVec 56
  mkExpiredTime : BitVec 56
  mkMask : BitVec 256
  mkWithMask : BitVec 256
  valid : Bool
  deriving DecidableEq

def Memory.mainKey (memory : Memory) : Option (BitVec 256) :=
  if memory.valid then some (memory.mkWithMask ^^^ memory.mkMask) else none

/-- The files, the main key in memory, the writes that opened a file, and the new data, if some was
made. -/
structure State where
  files : Nat → Option Bytes
  memory : Memory
  log : List (Nat × KsfData)
  made : Option KsfData

/-- What `GetRootMaterial` leaves of a file in the buffer of `HksRkcReadKsf`, which was zero. It
fails if there is nothing to read. -/
def getRootMaterial (file : Option Bytes) : Except Failure Bytes :=
  match file with
  | none => .error .readFileFail
  | some bytes =>
      if bytes = [] then .error .readFileFail
      else .ok ((bytes ++ List.replicate ksfBufLen 0).take ksfBufLen)

section Calls

variable (crypto : Crypto)

def rkcFillKsfBuf (data : KsfData) : Bytes :=
  ksfFlag ++ (data.bytes ++ Bytes.ofNat 32 (crypto.hash data.bytes).toNat)

def rkcExtractKsfBuf (buf : Bytes) : Except Failure KsfData :=
  if buf.take ksfFlagLen ≠ ksfFlag then .error .readFileFail
  else
    let content := buf.drop ksfFlagLen
    if crypto.hash (content.take ksfDataLen) =
        .ofNat 256 (Bytes.toNat ((content.drop ksfDataLen).take 32)) then
      .ok (KsfData.ofBytes content)
    else .error .invalidKeyFile

/-- What a file has, if it is valid. -/
def contents (file : Option Bytes) : Except Failure KsfData :=
  match getRootMaterial file with
  | .error failure => .error failure
  | .ok buf => rkcExtractKsfBuf crypto buf

def hksRkcReadKsf (file : Option Bytes) (event : Option Failure) : Except Failure KsfData :=
  match event with
  | some failure => .error failure
  | none => contents crypto file

/-- `HksRkcWriteKsf` of one of the files. -/
def hksRkcWriteKsf (state : State) (index : Nat) (data : KsfData) (event : WriteEvent) :
    State × Option Failure :=
  match event with
  | .done =>
      ({ state with
        files := Function.update state.files index (some (rkcFillKsfBuf crypto data))
        log := (index, data) :: state.log }, none)
  | .refused failure => (state, some failure)
  | .cut failure left =>
      ({ state with
        files := Function.update state.files index left
        log := (index, data) :: state.log }, some failure)

/-- The loop of `RkcReadAllKsf`: the index and the data of the first valid file. -/
def rkcReadAllKsf (read : Nat → Except Failure KsfData) :
    List Nat → Option (Nat × KsfData) → Option (Nat × KsfData)
  | [], valid => valid
  | index :: rest, valid =>
      match read index with
      | .error _ => rkcReadAllKsf read rest valid
      | .ok data => rkcReadAllKsf read rest (if valid.isNone then some (index, data) else valid)

def rkcRecoverRkTime (memory : Memory) (data : KsfData) : Memory :=
  { memory with rkCreatedTime := data.rkCreatedTime, rkExpiredTime := data.rkExpiredTime }

def rkcMaskMk (memory : Memory) (mk : BitVec 256) : Memory :=
  { memory with mkWithMask := mk ^^^ memory.mkMask, valid := true }

def rkcRecoverMkTime (memory : Memory) (data : KsfData) (events : Events) :
    Memory × Option Failure :=
  let memory :=
    { memory with mkCreatedTime := data.mkCreatedTime, mkExpiredTime := data.mkExpiredTime }
  if events.mkMemory = false then (memory, some .mallocFail)
  else
    match events.mask with
    | .error failure => (memory, some failure)
    | .ok mask =>
        let memory := { memory with mkMask := mask }
        match events.rmk with
        | some failure => (memory, some failure)
        | none =>
            match crypto.decrypt data with
            | none => (memory, some .cryptoEngineError)
            | some mk => (rkcMaskMk memory mk, none)

def rkcCheckKsf (state : State) (index : Nat) (ret : Except Failure KsfData) (valid : KsfData)
    (event : WriteEvent) : State × Option Failure :=
  match ret with
  | .error _ => hksRkcWriteKsf crypto state index valid event
  | .ok data =>
      if data = valid then (state, none) else hksRkcWriteKsf crypto state index valid event

/-- The loop of `RkcCheckAllKsf`, which goes on when a write fails. -/
def rkcCheckAllKsf (read : Nat → Except Failure KsfData) (valid : Nat × KsfData)
    (events : Events) : List Nat → State → State
  | [], state => state
  | index :: rest, state =>
      rkcCheckAllKsf read valid events rest
        (if index = valid.1 then state
        else (rkcCheckKsf crypto state index (read index) valid.2 (events.write index)).1)

def rkcLoadKsf (state : State) (events : Events) : State × Option Failure :=
  if events.ksfMemory = false then (state, some .mallocFail)
  else
    let read := fun index => hksRkcReadKsf crypto (state.files index) (events.read index)
    match rkcReadAllKsf read (List.range ksfNum) none with
    | none => (state, some .invalidKeyFile)
    | some valid =>
        let memory := rkcRecoverRkTime state.memory valid.2
        match rkcRecoverMkTime crypto memory valid.2 events with
        | (memory, some failure) => ({ state with memory := memory }, some failure)
        | (memory, none) =>
            (rkcCheckAllKsf crypto read valid events (List.range ksfNum)
              { state with memory := memory }, none)

/-- `RkcMakeMk`: the data gets the encrypted main key. -/
def rkcMakeMk (memory : Memory) (data : KsfData) (events : Events) :
    Memory × Except Failure KsfData :=
  if events.mkMemory = false then (memory, .error .mallocFail)
  else
    match events.mask with
    | .error failure => (memory, .error failure)
    | .ok mask =>
        let memory := { memory with mkMask := mask }
        match events.mainKey with
        | .error failure => (memory, .error failure)
        | .ok mk =>
            match events.iv with
            | .error failure => (memory, .error failure)
            | .ok iv =>
                let data := { data with mkEncryptAlg := 1, mkIv := iv }
                match events.rmk with
                | some failure => (memory, .error failure)
                | none =>
                    (rkcMaskMk memory mk,
                      .ok { data with mkCiphertext := crypto.encrypt data mk })

/-- The new data that `RkcCreateKsf` writes. -/
def rkcMakeKsf (memory : Memory) (events : Events) : Memory × Except Failure KsfData :=
  if events.ksfMemory = false then (memory, .error .mallocFail)
  else
    match events.randoms with
    | .error failure => (memory, .error failure)
    | .ok randoms =>
        let material := crypto.material randoms.1 randoms.2
        match events.salt with
        | .error failure => (memory, .error failure)
        | .ok salt =>
            rkcMakeMk crypto memory
              ⟨1, 0, 0, material.1, material.2, 1, salt, 1, 0, 0, 0, 0, 0, 0, 0⟩ events

/-- The loop of `RkcWriteAllKsf`, with whether a write has succeeded. -/
def rkcWriteAllKsf (data : KsfData) (events : Events) : List Nat → State → Bool → State × Bool
  | [], state, isSuccess => (state, isSuccess)
  | index :: rest, state, isSuccess =>
      let written := hksRkcWriteKsf crypto state index data (events.write index)
      rkcWriteAllKsf data events rest written.1 (isSuccess || written.2.isNone)

def rkcCreateKsf (state : State) (events : Events) : State × Option Failure :=
  match rkcMakeKsf crypto state.memory events with
  | (memory, .error failure) => ({ state with memory := memory }, some failure)
  | (memory, .ok data) =>
      let written := rkcWriteAllKsf crypto data events (List.range ksfNum)
        { state with memory := memory, made := some data } false
      (written.1, if written.2 then none else some .writeFileFail)

/-- `RkcKsfExist`. The error code of `GetProcessInfo` is returned as `true`. -/
def rkcKsfExist (files : Nat → Option Bytes) (events : Events) : Bool :=
  if events.processInfo = false then true
  else (List.range ksfNum).any fun index => (files index).isSome && events.existCheck index

def rkcInitKsf (state : State) (events : Events) : State × Option Failure :=
  if rkcKsfExist state.files events then rkcLoadKsf crypto state events
  else rkcCreateKsf crypto state events

end Calls

/-! ### Recovery -/

/-- The files and the memory before, when nothing is written yet. -/
def State.start (files : Nat → Option Bytes) (memory : Memory) : State :=
  ⟨files, memory, [], none⟩

/-- The first file that reads as valid. -/
structure FirstValid (read : Nat → Except Failure KsfData) (first : Nat) (data : KsfData) :
    Prop where
  inside : first < ksfNum
  valid : read first = .ok data
  before : ∀ index < first, ∀ other, read index ≠ .ok other

/-- The files with the main key of the first valid one: it is not written, and every other file has
the same data, unless its repair failed. If none failed, whatever later load succeeds recovers the
same main key. -/
structure Recovered (crypto : Crypto) (files : Nat → Option Bytes) (events : Events) (after : State)
    (first : Nat) (data : KsfData) : Prop where
  mainKey : after.memory.mainKey = crypto.decrypt data ∧ after.memory.mainKey ≠ none
  kept : after.files first = files first ∧ ∀ entry ∈ after.log, entry.1 ≠ first
  repaired : ∀ index < ksfNum, index ≠ first →
    contents crypto (after.files index) = .ok data ∨ events.write index ≠ .done
  later : (∀ index < ksfNum, index ≠ first → events.write index = .done) → ∀ memory later,
    (rkcLoadKsf crypto (.start after.files memory) later).2 = none →
      (rkcLoadKsf crypto (.start after.files memory) later).1.memory.mainKey = crypto.decrypt data

/-- New material is written only if there is no valid file; and if some file reads as valid, the
call fails and leaves every valid file, or recovers the main key of the first one. -/
structure Safe (crypto : Crypto) (files : Nat → Option Bytes) (events : Events)
    (result : State × Option Failure) : Prop where
  fresh : ∀ data index, result.1.made = some data → (index, data) ∈ result.1.log →
    ∀ other < ksfNum, ∀ old, contents crypto (files other) ≠ .ok old
  recovered : ∀ first data,
    FirstValid (fun index => hksRkcReadKsf crypto (files index) (events.read index)) first data →
      (result.2 ≠ none ∧ ∀ index < ksfNum, ∀ old, contents crypto (files index) = .ok old →
          result.1.files index = files index) ∨
        result.2 = none ∧ Recovered crypto files events result.1 first data

/-- What it takes: there is no valid file, or `RkcKsfExist` says that there is a file, or no new
data can be made, or no file can be opened to write it. -/
def Careful (crypto : Crypto) (files : Nat → Option Bytes) (memory : Memory) (events : Events) :
    Prop :=
  (∀ index < ksfNum, ∀ old, contents crypto (files index) ≠ .ok old) ∨
    rkcKsfExist files events = true ∨
      (∃ failure, (rkcMakeKsf crypto memory events).2 = .error failure) ∨
        ∀ index < ksfNum, ∃ failure, events.write index = .refused failure

section Files

variable {crypto : Crypto}

theorem KsfData.length_bytes (data : KsfData) : data.bytes.length = ksfDataLen := by
  simp only [KsfData.bytes, length_append, Bytes.length_ofNat]
  rfl

theorem KsfData.ofBytes_append (data : KsfData) (rest : Bytes) :
    KsfData.ofBytes (data.bytes ++ rest) = data := by
  obtain ⟨version, rkCreatedTime, rkExpiredTime, rkMaterial1, rkMaterial2, rmkIter, rmkSalt,
    rmkHashAlg, rkRsv, mkCreatedTime, mkExpiredTime, mkEncryptAlg, mkIv, mkCiphertext, mkRsv⟩ :=
      data
  rw [KsfData.ofBytes, KsfData.bytes]
  simp only [append_assoc]
  rw [Bytes.read_bitVec 2 version, Bytes.read_bitVec 7 rkCreatedTime,
    Bytes.read_bitVec 7 rkExpiredTime, Bytes.read_bitVec 32 rkMaterial1,
    Bytes.read_bitVec 32 rkMaterial2, Bytes.read_bitVec 4 rmkIter, Bytes.read_bitVec 32 rmkSalt,
    Bytes.read_bitVec 4 rmkHashAlg, Bytes.read_bitVec 8 rkRsv, Bytes.read_bitVec 7 mkCreatedTime,
    Bytes.read_bitVec 7 mkExpiredTime, Bytes.read_bitVec 4 mkEncryptAlg, Bytes.read_bitVec 16 mkIv,
    Bytes.read_bitVec 48 mkCiphertext, Bytes.read_bitVec 8 mkRsv]
  simp only [BitVec.ofNat_toNat, BitVec.setWidth_eq]

theorem getRootMaterial_eq {bytes : Bytes} (length : bytes.length = ksfBufLen) :
    getRootMaterial (some bytes) = .ok bytes := by
  have some_ : bytes ≠ [] := by
    rintro rfl
    cases length
  rw [getRootMaterial, if_neg some_, take_left' length]

theorem length_getRootMaterial {file : Option Bytes} {buf : Bytes}
    (read : getRootMaterial file = .ok buf) : buf.length = ksfBufLen := by
  cases file with
  | none => cases read
  | some bytes =>
    rw [getRootMaterial] at read
    split at read
    · cases read
    · rw [← Except.ok.inj read, length_take, length_append, length_replicate]
      exact Nat.min_eq_left (Nat.le_add_left _ _)

theorem contents_rkcFillKsfBuf (data : KsfData) :
    contents crypto (some (rkcFillKsfBuf crypto data)) = .ok data := by
  have flag : ksfFlag.length = ksfFlagLen := rfl
  have hashLen : (Bytes.ofNat 32 (crypto.hash data.bytes).toNat).length = 32 :=
    Bytes.length_ofNat _ _
  have length : (rkcFillKsfBuf crypto data).length = ksfBufLen := by
    rw [rkcFillKsfBuf, length_append, length_append, data.length_bytes, hashLen]
    rfl
  have hash : Bytes.toNat ((Bytes.ofNat 32 (crypto.hash data.bytes).toNat).take 32) =
      (crypto.hash data.bytes).toNat := by
    have read := congrArg Prod.fst (Bytes.read_bitVec 32 (crypto.hash data.bytes) [])
    rwa [append_nil] at read
  rw [contents, getRootMaterial_eq length]
  dsimp only
  rw [rkcExtractKsfBuf, rkcFillKsfBuf, take_left' flag, if_neg (not_not.mpr rfl),
    drop_left' flag]
  dsimp only
  rw [take_left' data.length_bytes, drop_left' data.length_bytes, hash,
    BitVec.ofNat_toNat, BitVec.setWidth_eq, if_pos rfl, data.ofBytes_append]

variable {data : KsfData}

theorem contents_of_read {file : Option Bytes} {event : Option Failure}
    (read : hksRkcReadKsf crypto file event = .ok data) : contents crypto file = .ok data := by
  cases event with
  | none => exact read
  | some failure => cases read

theorem rkcReadAllKsf_found (read : Nat → Except Failure KsfData) (list : List Nat)
    (entry : Nat × KsfData) : rkcReadAllKsf read list (some entry) = some entry := by
  induction list with
  | nil => rfl
  | cons index rest hypothesis =>
    rw [rkcReadAllKsf]
    cases read index with
    | error failure => exact hypothesis
    | ok data => exact hypothesis

variable {read : Nat → Except Failure KsfData} {first : Nat}

theorem rkcReadAllKsf_range (count start : Nat) :
    rkcReadAllKsf read (List.range' start count) none = some (first, data) ↔
      start ≤ first ∧ first < start + count ∧ read first = .ok data ∧
        ∀ index, start ≤ index → index < first → ∀ other, read index ≠ .ok other := by
  induction count generalizing start with
  | zero => exact iff_of_false (some_ne_none _).symm fun found => by omega
  | succ count hypothesis =>
    rw [List.range'_succ, rkcReadAllKsf]
    cases here : read start with
    | error failure =>
      rw [hypothesis]
      constructor
      · rintro ⟨after, inside, valid, before⟩
        refine ⟨by omega, by omega, valid, fun index later less other => ?_⟩
        rcases Nat.eq_or_lt_of_le later with rfl | later
        · rw [here]
          intro equal
          cases equal
        · exact before index later less other
      · rintro ⟨after, inside, valid, before⟩
        rcases Nat.eq_or_lt_of_le after with rfl | after
        · rw [here] at valid
          cases valid
        · exact ⟨after, by omega, valid, fun index later => before index (by omega)⟩
    | ok other =>
      dsimp only
      rw [isNone_none, if_pos rfl, rkcReadAllKsf_found, some_inj]
      constructor
      · rintro equal
        obtain ⟨rfl, rfl⟩ := Prod.mk.inj equal
        exact ⟨Nat.le_refl _, by omega, here, fun index later less => by omega⟩
      · rintro ⟨after, inside, valid, before⟩
        rcases Nat.eq_or_lt_of_le after with rfl | after
        · rw [here] at valid
          rw [Except.ok.inj valid]
        · exact absurd here (before start (Nat.le_refl _) after other)

theorem rkcReadAllKsf_eq_some : rkcReadAllKsf read (List.range ksfNum) none = some (first, data) ↔
      FirstValid read first data := by
  rw [range_eq_range', rkcReadAllKsf_range]
  constructor
  · rintro ⟨_, inside, valid, before⟩
    exact ⟨by omega, valid, fun index => before index (Nat.zero_le _)⟩
  · rintro ⟨inside, valid, before⟩
    exact ⟨Nat.zero_le _, by omega, valid, fun index _ => before index⟩

/-! ### Writing -/

/-- A write changes one file at most, and when it ends well the file has the data. -/
theorem hksRkcWriteKsf_spec (state : State) (index : Nat) (data : KsfData) (event : WriteEvent) :
    (∀ other ≠ index, (hksRkcWriteKsf crypto state index data event).1.files other =
        state.files other) ∧
      (hksRkcWriteKsf crypto state index data event).1.memory = state.memory ∧
      (hksRkcWriteKsf crypto state index data event).1.made = state.made ∧
      (∀ entry ∈ (hksRkcWriteKsf crypto state index data event).1.log,
        entry ∈ state.log ∨ entry = (index, data)) ∧
      (event = .done → contents crypto
        ((hksRkcWriteKsf crypto state index data event).1.files index) = .ok data) := by
  cases event with
  | done =>
    refine ⟨fun other different => Function.update_of_ne different _ _, rfl, rfl,
      fun entry logged => (mem_cons.mp logged).symm, fun _ => ?_⟩
    change contents crypto (Function.update state.files index _ index) = _
    rw [Function.update_self, contents_rkcFillKsfBuf]
  | refused failure =>
    exact ⟨fun _ _ => rfl, rfl, rfl, fun _ => Or.inl, WriteEvent.noConfusion⟩
  | cut failure left =>
    exact ⟨fun other different => Function.update_of_ne different _ _, rfl, rfl,
      fun entry logged => (mem_cons.mp logged).symm, WriteEvent.noConfusion⟩

variable {state : State}

theorem mem_log_hksRkcWriteKsf {index : Nat} {event : WriteEvent}
    (opened : ∀ failure, event ≠ .refused failure) :
    (index, data) ∈ (hksRkcWriteKsf crypto state index data event).1.log := by
  cases event with
  | done => exact mem_cons_self
  | refused failure => exact absurd rfl (opened failure)
  | cut failure left => exact mem_cons_self

/-- What the repair of one file does. -/
theorem rkcCheckKsf_spec (state : State) (index : Nat) (ret : Except Failure KsfData)
    (valid : KsfData) (event : WriteEvent)
    (sound : ∀ data, ret = .ok data → contents crypto (state.files index) = .ok data) :
    (∀ other ≠ index, (rkcCheckKsf crypto state index ret valid event).1.files other =
        state.files other) ∧
      (rkcCheckKsf crypto state index ret valid event).1.memory = state.memory ∧
      (rkcCheckKsf crypto state index ret valid event).1.made = state.made ∧
      (∀ entry ∈ (rkcCheckKsf crypto state index ret valid event).1.log,
        entry ∈ state.log ∨ entry = (index, valid)) ∧
      (contents crypto ((rkcCheckKsf crypto state index ret valid event).1.files index) =
        .ok valid ∨ event ≠ .done) := by
  have written := @hksRkcWriteKsf_spec crypto state index valid event
  have ends : contents crypto ((hksRkcWriteKsf crypto state index valid event).1.files index) =
      .ok valid ∨ event ≠ .done := by
    by_cases done : event = .done
    · exact .inl (written.2.2.2.2 done)
    · exact .inr done
  cases ret with
  | error failure => exact ⟨written.1, written.2.1, written.2.2.1, written.2.2.2.1, ends⟩
  | ok data =>
    rw [rkcCheckKsf]
    split
    · next same => exact ⟨fun _ _ => rfl, rfl, rfl, fun _ => Or.inl, .inl (same ▸ sound data rfl)⟩
    · exact ⟨written.1, written.2.1, written.2.2.1, written.2.2.2.1, ends⟩

variable {events : Events} {list : List Nat}

/-- What the repair of all files but the first valid one does. -/
theorem rkcCheckAllKsf_spec {valid : Nat × KsfData} (once : list.Nodup)
    (sound : ∀ index ∈ list, ∀ data, read index = .ok data →
      contents crypto (state.files index) = .ok data) : (∀ index, index ∉ list ∨ index = valid.1 →
        (rkcCheckAllKsf crypto read valid events list state).files index = state.files index) ∧
      (rkcCheckAllKsf crypto read valid events list state).memory = state.memory ∧
      (rkcCheckAllKsf crypto read valid events list state).made = state.made ∧
      (∀ entry ∈ (rkcCheckAllKsf crypto read valid events list state).log,
        entry ∈ state.log ∨ entry.1 ≠ valid.1) ∧
      ∀ index ∈ list, index ≠ valid.1 →
        contents crypto ((rkcCheckAllKsf crypto read valid events list state).files index) =
          .ok valid.2 ∨ events.write index ≠ .done := by
  induction list generalizing state with
  | nil => exact ⟨fun _ _ => rfl, rfl, rfl, fun _ => Or.inl, forall_mem_nil _⟩
  | cons index rest hypothesis =>
    obtain ⟨apart, once⟩ := nodup_cons.mp once
    rw [rkcCheckAllKsf]
    by_cases first : index = valid.1
    · rw [if_pos first]
      obtain ⟨files, memory, made, log, repaired⟩ := @hypothesis state once
        fun other member => sound other (mem_cons_of_mem _ member)
      refine ⟨fun other out => files other (out.imp_left fun out member =>
        out (mem_cons_of_mem _ member)), memory, made, log, fun other member different => ?_⟩
      rcases mem_cons.mp member with rfl | member
      · exact absurd first different
      · exact repaired other member different
    · rw [if_neg first]
      obtain ⟨files₁, memory₁, made₁, log₁, ends⟩ := rkcCheckKsf_spec state index (read index)
        valid.2 (events.write index) (sound index mem_cons_self)
      obtain ⟨files, memory, made, log, repaired⟩ := @hypothesis
        (rkcCheckKsf crypto state index (read index) valid.2 (events.write index)).1 once
        fun other member data valid_ => by
          rw [files₁ other fun equal => apart (equal ▸ member)]
          exact sound other (mem_cons_of_mem _ member) data valid_
      refine ⟨fun other out => ?_, memory.trans memory₁, made.trans made₁, fun entry logged => ?_,
        fun other member different => ?_⟩
      · have away : other ≠ index := by
          rintro rfl
          exact out.elim (fun out => out mem_cons_self) first
        rw [files other (out.imp_left fun out member => out (mem_cons_of_mem _ member)),
          files₁ other away]
      · rcases log entry logged with logged | logged
        · rcases log₁ entry logged with logged | rfl
          · exact .inl logged
          · exact .inr first
        · exact .inr logged
      · rcases mem_cons.mp member with rfl | member
        · rw [files other (.inl apart)]
          exact ends
        · exact repaired other member different

/-! ### Loading -/

variable {memory : Memory}

theorem mainKey_of_rkcRecoverMkTime (done : (rkcRecoverMkTime crypto memory data events).2 = none) :
    (rkcRecoverMkTime crypto memory data events).1.mainKey = crypto.decrypt data ∧
      crypto.decrypt data ≠ none := by
  revert done
  rw [rkcRecoverMkTime]
  split
  · exact fun done => absurd done (some_ne_none _)
  cases events.mask with
  | error failure => exact fun done => absurd done (some_ne_none _)
  | ok mask =>
    cases events.rmk with
    | some failure => exact fun done => absurd done (some_ne_none _)
    | none =>
      cases decrypted : crypto.decrypt data with
      | none => exact fun done => absurd done (some_ne_none _)
      | some mk =>
        intro _
        refine ⟨?_, some_ne_none _⟩
        dsimp only
        rw [Memory.mainKey, rkcMaskMk, if_pos rfl, BitVec.xor_assoc, BitVec.xor_self,
          BitVec.xor_zero]

/-- The state after a load that found a valid file and recovered the main key. -/
structure Loaded (crypto : Crypto) (state : State) (events : Events) (after : State) (first : Nat)
    (data : KsfData) : Prop where
  found : FirstValid (fun index =>
    hksRkcReadKsf crypto (state.files index) (events.read index)) first data
  mainKey : after.memory.mainKey = crypto.decrypt data ∧ crypto.decrypt data ≠ none
  made : after.made = state.made
  kept : after.files first = state.files first
  log : ∀ entry ∈ after.log, entry ∈ state.log ∨ entry.1 ≠ first
  repaired : ∀ index < ksfNum, index ≠ first →
    contents crypto (after.files index) = .ok data ∨ events.write index ≠ .done

theorem rkcLoadKsf_cases (state : State) (events : Events) :
    (∃ memory failure, rkcLoadKsf crypto state events =
        ({ state with memory := memory }, some failure)) ∨
      (rkcLoadKsf crypto state events).2 = none ∧
        ∃ first data, Loaded crypto state events (rkcLoadKsf crypto state events).1 first data := by
  rw [rkcLoadKsf]
  split
  · exact .inl ⟨state.memory, .mallocFail, rfl⟩
  dsimp only
  cases found : rkcReadAllKsf
      (fun index => hksRkcReadKsf crypto (state.files index) (events.read index))
      (List.range ksfNum) none with
  | none => exact .inl ⟨state.memory, .invalidKeyFile, rfl⟩
  | some valid =>
    have recovered := @mainKey_of_rkcRecoverMkTime crypto valid.2 events
      (rkcRecoverRkTime state.memory valid.2)
    dsimp only
    generalize rkcRecoverMkTime crypto (rkcRecoverRkTime state.memory valid.2) valid.2 events =
      result at recovered ⊢
    obtain ⟨memory, failed⟩ := result
    cases failed with
    | some failure => exact .inl ⟨memory, failure, rfl⟩
    | none =>
      dsimp only
      obtain ⟨files, memory_, made, log, repaired⟩ := @rkcCheckAllKsf_spec crypto
        (fun index => hksRkcReadKsf crypto (state.files index) (events.read index))
        { state with memory := memory } events (List.range ksfNum) valid nodup_range
        fun index _ data read => contents_of_read read
      refine .inr ⟨rfl, valid.1, valid.2, rkcReadAllKsf_eq_some.mp found, ?_, made,
        files valid.1 (.inr rfl), log, fun index inside =>
          repaired index (mem_range.mpr inside)⟩
      rw [memory_]
      exact recovered rfl

theorem mainKey_of_rkcLoadKsf
    (same : ∀ index < ksfNum, contents crypto (state.files index) = .ok data)
    (done : (rkcLoadKsf crypto state events).2 = none) :
    (rkcLoadKsf crypto state events).1.memory.mainKey = crypto.decrypt data := by
  rcases rkcLoadKsf_cases state events with ⟨memory, failure, failed⟩ | ⟨_, first, found, loaded⟩
  · rw [failed] at done
    exact absurd done (some_ne_none _)
  · have equal := (same first loaded.found.inside).symm.trans (contents_of_read loaded.found.valid)
    rw [loaded.mainKey.1, Except.ok.inj equal]

variable {files : Nat → Option Bytes}

theorem Loaded.recovered {after : State}
    (loaded : Loaded crypto (.start files memory) events after first data) :
    Recovered crypto files events after first data := by
  have valid : contents crypto (after.files first) = .ok data := by
    rw [loaded.kept]
    exact contents_of_read loaded.found.valid
  refine ⟨⟨loaded.mainKey.1, loaded.mainKey.1 ▸ loaded.mainKey.2⟩,
    ⟨loaded.kept, fun entry logged => (loaded.log entry logged).resolve_left not_mem_nil⟩,
    loaded.repaired, fun done memory later => mainKey_of_rkcLoadKsf fun index inside => ?_⟩
  by_cases other : index = first
  · rw [other]
    exact valid
  · exact (loaded.repaired index inside other).resolve_right
      fun failed => failed (done index inside other)

theorem FirstValid.unique {other : Nat} {otherData : KsfData} (found : FirstValid read first data)
    (also : FirstValid read other otherData) : first = other ∧ data = otherData :=
  Prod.mk.inj (some_inj.mp
    ((rkcReadAllKsf_eq_some.mpr found).symm.trans (rkcReadAllKsf_eq_some.mpr also)))

theorem safe_of_rkcLoadKsf (files : Nat → Option Bytes) (memory : Memory) (events : Events) :
    Safe crypto files events (rkcLoadKsf crypto (.start files memory) events) := by
  rcases @rkcLoadKsf_cases crypto (.start files memory) events with
    ⟨memory', failure, failed⟩ | ⟨done, first, data, loaded⟩
  · rw [failed]
    exact ⟨fun data index made => absurd made.symm (some_ne_none _),
      fun first data _ => .inl ⟨some_ne_none _, fun _ _ _ _ => rfl⟩⟩
  refine ⟨fun fresh index made => ?_, fun first' data' found => .inr ⟨done, ?_⟩⟩
  · rw [loaded.made] at made
    exact absurd made.symm (some_ne_none _)
  · obtain ⟨rfl, rfl⟩ := loaded.found.unique found
    exact loaded.recovered

/-! ### Creating -/

theorem rkcWriteAllKsf_refused (state : State)
    (refused : ∀ index ∈ list, ∃ failure, events.write index = .refused failure) :
    rkcWriteAllKsf crypto data events list state false = (state, false) := by
  induction list with
  | nil => rfl
  | cons index rest hypothesis =>
    obtain ⟨failure, event⟩ := refused index mem_cons_self
    rw [rkcWriteAllKsf, event]
    exact hypothesis fun other member => refused other (mem_cons_of_mem _ member)

theorem mem_log_rkcWriteAllKsf {isSuccess : Bool} {entry : Nat × KsfData}
    (logged : entry ∈ state.log) :
    entry ∈ (rkcWriteAllKsf crypto data events list state isSuccess).1.log := by
  induction list generalizing state isSuccess with
  | nil => exact logged
  | cons index rest hypothesis =>
    refine hypothesis ?_
    cases events.write index with
    | done => exact mem_cons_of_mem _ logged
    | refused failure => exact logged
    | cut failure left => exact mem_cons_of_mem _ logged

theorem rkcWriteAllKsf_made (data : KsfData) (events : Events) (list : List Nat) (state : State)
    (isSuccess : Bool) :
    (rkcWriteAllKsf crypto data events list state isSuccess).1.made = state.made := by
  induction list generalizing state isSuccess with
  | nil => rfl
  | cons index rest hypothesis =>
    exact (hypothesis _ _).trans (hksRkcWriteKsf_spec state index data _).2.2.1

theorem rkcWriteAllKsf_logged {isSuccess : Bool} {index : Nat} (member : index ∈ list)
    (opened : ∀ failure, events.write index ≠ .refused failure) :
    (index, data) ∈ (rkcWriteAllKsf crypto data events list state isSuccess).1.log := by
  induction list generalizing state isSuccess with
  | nil => cases member
  | cons other rest hypothesis =>
    rcases mem_cons.mp member with rfl | member
    · rw [rkcWriteAllKsf]
      exact mem_log_rkcWriteAllKsf (mem_log_hksRkcWriteKsf opened)
    · exact hypothesis member

theorem safe_of_invalid (events : Events) (result : State × Option Failure)
    (invalid : ∀ index < ksfNum, ∀ old, contents crypto (files index) ≠ .ok old) :
    Safe crypto files events result :=
  ⟨fun _ _ _ _ => invalid, fun first data found =>
    absurd (contents_of_read found.valid) (invalid first found.inside data)⟩

theorem safe_of_rkcCreateKsf
    (refused : (∃ failure, (rkcMakeKsf crypto memory events).2 = .error failure) ∨
      ∀ index < ksfNum, ∃ failure, events.write index = .refused failure) :
    Safe crypto files events (rkcCreateKsf crypto (.start files memory) events) := by
  rw [rkcCreateKsf]
  dsimp only [State.start]
  generalize rkcMakeKsf crypto memory events = making at refused ⊢
  obtain ⟨made, data⟩ := making
  cases data with
  | error failure =>
    exact ⟨fun _ _ made => absurd made.symm (some_ne_none _),
      fun _ _ _ => .inl ⟨some_ne_none _, fun _ _ _ _ => rfl⟩⟩
  | ok data =>
    have closed := refused.resolve_left fun failed => by
      obtain ⟨failure, failed⟩ := failed
      cases failed
    dsimp only
    rw [rkcWriteAllKsf_refused _ fun index member => closed index (mem_range.mp member)]
    exact ⟨fun _ _ _ logged => absurd logged not_mem_nil,
      fun _ _ _ => .inl ⟨some_ne_none _, fun _ _ _ _ => rfl⟩⟩

/-- For every content of the two files and every pattern of failures, the initialisation is safe
exactly when no valid file is taken for a missing one and then overwritten. -/
theorem safe_iff (files : Nat → Option Bytes) (memory : Memory) (events : Events) :
    Safe crypto files events (rkcInitKsf crypto (.start files memory) events) ↔
      Careful crypto files memory events := by
  constructor
  · intro safe
    by_contra careless
    obtain ⟨valid, careless⟩ := not_or.mp careless
    obtain ⟨missing, careless⟩ := not_or.mp careless
    obtain ⟨makes, opens⟩ := not_or.mp careless
    refine valid fun other inside old => ?_
    change ¬rkcKsfExist (State.start files memory).files events = true at missing
    rw [rkcInitKsf, if_neg missing, rkcCreateKsf] at safe
    dsimp only [State.start] at safe
    generalize rkcMakeKsf crypto memory events = making at makes safe
    obtain ⟨made, data⟩ := making
    cases data with
    | error failure => exact absurd ⟨failure, rfl⟩ makes
    | ok data =>
      obtain ⟨index, some_⟩ := not_forall.mp opens
      obtain ⟨inIndex, opened⟩ := Classical.not_imp.mp some_
      refine safe.fresh data index ?_ ?_ other inside old
      · exact rkcWriteAllKsf_made data events _ _ _
      · exact rkcWriteAllKsf_logged (List.mem_range.mpr inIndex) (not_exists.mp opened)
  · rintro (invalid | present | refused)
    · exact safe_of_invalid events _ invalid
    · change rkcKsfExist (State.start files memory).files events = true at present
      rw [rkcInitKsf, if_pos present]
      exact safe_of_rkcLoadKsf files memory events
    · rw [rkcInitKsf]
      split
      · exact safe_of_rkcLoadKsf files memory events
      · exact safe_of_rkcCreateKsf refused

end Files

/-- A hash that takes every content for the same one. -/
def weakCrypto : Crypto :=
  ⟨fun _ => 0, fun first second => (first, second), fun _ key => BitVec.setWidth 384 key,
    fun data => some (BitVec.setWidth 256 data.mkCiphertext)⟩

/-- The checks for both files fail, and everything else goes well. -/
def failedChecks : Events :=
  ⟨true, fun _ => false, fun _ => none, fun _ => .done, true, true, .ok 1, none, .ok (2, 3), .ok 4,
    .ok 5, .ok 6⟩

def blankMemory : Memory :=
  ⟨0, 0, 0, 0, 0, 0, false⟩

def oldKsf : KsfData :=
  ⟨1, 0, 0, 7, 7, 1, 7, 1, 0, 0, 0, 1, 7, 7, 0⟩

/-- Both files are valid, and both checks for them fail: a new main key overwrites them. -/
theorem valid_files_overwritten : ∃ crypto files memory events,
      ¬Safe crypto files events (rkcInitKsf crypto (.start files memory) events) := by
  refine ⟨weakCrypto, fun _ => some (rkcFillKsfBuf weakCrypto oldKsf), blankMemory, failedChecks,
    fun safe => ?_⟩
  exact safe.fresh ⟨1, 0, 0, 2, 3, 1, 4, 1, 0, 0, 0, 1, 6, 5, 0⟩ 0 (by decide)
    (by decide) 0 (by decide) oldKsf (contents_rkcFillKsfBuf oldKsf)

end TowerSafe.RootKey
