/-
This file embeds the loading of the key-store image from its file in `hks_storage_lite.c`, with the
file operations of `hks_file_operator_lite.c`. Whatever reads fail, a restart keeps every key,
unless a file is taken for a missing one or a part of it for the whole.
-/

import TowerSafe.Huks.KeyImage

namespace TowerSafe.KeyFile

open Library KeyImage List Option

/-! ### Loading -/

def headerOfBytes (bytes : Bytes) : HeaderInfo :=
  let version := Bytes.read 2 bytes
  let keyCount := Bytes.read 2 version.2
  let totalLen := Bytes.read 4 keyCount.2
  let sealingAlg := Bytes.read 4 totalLen.2
  let salt := Bytes.read 16 sealingAlg.2
  let hmac := Bytes.read 64 salt.2
  ⟨⟨.ofNat 16 version.1, .ofNat 16 keyCount.1, .ofNat 32 totalLen.1, .ofNat 32 sealingAlg.1,
    .ofNat 128 salt.1⟩, .ofNat 512 hmac.1⟩

/-- What happens in a read: whether there is memory for the full name, the size of the file, if the
call for it succeeds, whether the file can be opened, and how many bytes the read gives, if it
succeeds. -/
structure ReadEvents where
  name : Bool
  stat : Option Nat
  opened : Bool
  count : Option Nat
  deriving DecidableEq

/-- `HksFileRead` into a buffer: what is in the buffer, and the result. -/
def hksFileRead (file : Option Bytes) (buffer : Bytes) (events : ReadEvents) : Bytes × Nat :=
  if buffer.length = 0 ∨ events.name = false then (buffer, 0)
  else
    match file with
    | none => (buffer, 0)
    | some bytes =>
        match events.stat with
        | none => (buffer, 0)
        | some fileSize =>
            if fileSize < buffer.length ∨ events.opened = false then (buffer, 0)
            else
              match events.count with
              | none => (buffer, 0)
              | some count =>
                  let given := (bytes.take buffer.length).take count
                  (given ++ buffer.drop given.length, buffer.length)

def hksFileSize (file : Option Bytes) (name : Bool) (stat : Option Nat) : Nat :=
  if name = false ∨ file = none then 0 else stat.getD 0

/-- What happens in a load. -/
structure LoadEvents where
  /-- Whether there is memory for a header. -/
  memory : Bool
  first : ReadEvents
  salt : Except Failure (BitVec 128)
  mac : Events
  sizeName : Bool
  sizeStat : Option Nat
  /-- What is in the memory for the whole image, if there is memory. -/
  whole : Option (Nat → BitVec 8)
  second : ReadEvents

def wholeBuffer (content : Nat → BitVec 8) (totalLen : Nat) : Bytes :=
  (List.range totalLen).map content

section Calls

variable (mac : HeaderStart → BitVec 512)

def checkKeyInfoHeaderValid (head : HeaderInfo) (events : Events) : Option Failure :=
  match calcHeaderMac mac head.start events with
  | .error failure => some failure
  | .ok hmac => if hmac = head.hmac then none else some .invalidKeyFile

/-- `FreshImageBuffer`, with the header in the buffer. -/
def freshImageBuffer (file : Option Bytes) (head : HeaderInfo) (events : LoadEvents) :
    Except Failure Image :=
  let totalLen := head.start.totalLen.toNat
  if totalLen < sizeofHeaderInfo ∨ maxStorageSize < totalLen then .error .invalidKeyFile
  else if totalLen = sizeofHeaderInfo then .ok ⟨head, []⟩
  else if hksFileSize file events.sizeName events.sizeStat < totalLen then .error .invalidKeyFile
  else
    match events.whole with
    | none => .error .mallocFail
    | some content =>
        let read := hksFileRead file (wholeBuffer content totalLen) events.second
        if read.2 = 0 then .error .readFileFail
        else .ok ⟨headerOfBytes read.1, read.1.drop sizeofHeaderInfo⟩

/-- The header buffer after `CleanImageBuffer`. -/
def headerBuffer : Bytes :=
  List.replicate sizeofHeaderInfo 0

/-- `LoadFileToBuffer`: the image, or the buffer is freed. -/
def loadFileToBuffer (file : Option Bytes) (events : LoadEvents) : Except Failure Image :=
  let read := hksFileRead file headerBuffer events.first
  if read.2 = 0 then initImageBuffer mac events.salt events.mac
  else
    let head := headerOfBytes read.1
    match checkKeyInfoHeaderValid mac head events.mac with
    | some failure => .error failure
    | none => freshImageBuffer file head events

def hksLoadFileToBuffer (store : KeyStore) (events : LoadEvents) : KeyStore × Option Failure :=
  if store.image.isSome then (store, none)
  else if events.memory = false then (store, some .mallocFail)
  else
    match loadFileToBuffer mac store.file events with
    | .error failure => ({ store with image := none }, some failure)
    | .ok image => ({ store with image := some image }, none)

end Calls

/-! ### Runs -/

inductive Action where
  | call (call : Call)
  | restart
  | load (events : LoadEvents)

/-- A step is a call that succeeds, a restart, after which nothing is in memory, or a load. -/
def step (mac : HeaderStart → BitVec 512) (system : System) : Action → Option System
  | .call call =>
      let called := system.store.call mac call
      if called.2 = none then some ⟨called.1, call.keys system.keys⟩ else none
  | .restart => some { system with store := { system.store with image := none } }
  | .load events =>
      some { system with store := (hksLoadFileToBuffer mac system.store events).1 }

def ReadEvents.good (bytes : Bytes) : ReadEvents :=
  ⟨true, some bytes.length, true, some bytes.length⟩

/-- A load of a file in which nothing fails. -/
def LoadEvents.good (bytes : Bytes) (salt : BitVec 128) (content : Nat → BitVec 8) : LoadEvents :=
  ⟨true, .good bytes, .ok salt, .good, true, some bytes.length, some content, .good bytes⟩

/-- A get gives every key that is stored and not deleted. -/
def Gives (image : Image) (keys : Bytes → Option Bytes) : Prop :=
  ∀ keyAlias keyBlob, keys keyAlias = some keyBlob →
    hksStoreGetKeyBlob image keyAlias true = .ok keyBlob

/-- Every key is returned unchanged, if the image is loaded, and after a restart a load in which
nothing fails recovers it. -/
structure Durable (mac : HeaderStart → BitVec 512) (system : System) : Prop where
  loaded : ∀ image, system.store.image = some image → Gives image system.keys
  recovered : ∀ salt content, ∃ image,
    hksLoadFileToBuffer mac { system.store with image := none }
      (.good (system.store.file.getD []) salt content) =
        ({ system.store with image := some image }, none) ∧ Gives image system.keys

def Blank (system : System) : Prop :=
  system = ⟨⟨none, none⟩, fun _ => none⟩

/-- What it takes of a load: if nothing is read of a file, it has no keys, or no image is made; a
header that is read and accepted is the one in the file; and a second read that gives something
gives all. -/
def carefulLoad (mac : HeaderStart → BitVec 512) (file : Option Bytes) (events : LoadEvents) :
    Bool :=
  match file with
  | none => true
  | some bytes =>
      let head := headerOfBytes bytes
      let totalLen := head.start.totalLen.toNat
      let first := hksFileRead file headerBuffer events.first
      let second := events.whole.map fun content =>
        hksFileRead file (wholeBuffer content totalLen) events.second
      if first.2 = 0 then
        decide (head.start.keyCount = 0) || !(initImageBuffer mac events.salt events.mac).isOk
      else
        (checkKeyInfoHeaderValid mac (headerOfBytes first.1) events.mac).isSome ||
          decide (headerOfBytes first.1 = head) &&
            (decide (totalLen = sizeofHeaderInfo) ||
              decide (hksFileSize file events.sizeName events.sizeStat < totalLen) ||
              second.all fun read => decide (read.2 = 0) || decide (read.1 = bytes))

/-- What it takes: calls store well-formed blobs, and loads are careful. -/
def careful (mac : HeaderStart → BitVec 512) (system : System) : Action → Prop
  | .call call => call.wellFormed
  | .restart => True
  | .load events => system.store.image = none → events.memory = true →
      carefulLoad mac system.store.file events = true

/-! ### Files -/

theorem length_bytes (head : HeaderInfo) : head.bytes.length = sizeofHeaderInfo := by
  simp only [HeaderInfo.bytes, length_append, Bytes.length_ofNat]
  rfl

theorem headerOfBytes_append (head : HeaderInfo) (rest : Bytes) :
    headerOfBytes (head.bytes ++ rest) = head := by
  obtain ⟨⟨version, keyCount, totalLen, sealingAlg, salt⟩, hmac⟩ := head
  rw [headerOfBytes, HeaderInfo.bytes]
  simp only [append_assoc]
  rw [Bytes.read_bitVec 2 version, Bytes.read_bitVec 2 keyCount, Bytes.read_bitVec 4 totalLen,
    Bytes.read_bitVec 4 sealingAlg, Bytes.read_bitVec 16 salt, Bytes.read_bitVec 64 hmac]
  simp only [BitVec.ofNat_toNat, BitVec.setWidth_eq]

/-- The file is missing, or has a header with a MAC and some blobs behind it. -/
inductive FileHolds (mac : HeaderStart → BitVec 512) : Option Bytes → List Bytes → Prop
  | missing : FileHolds mac none []
  | written (head : HeaderInfo) (blobs : List Bytes)
      (packed : Packed ⟨head, blobs.flatten⟩ blobs) (hmac : head.hmac = mac head.start) :
      FileHolds mac (some (head.bytes ++ blobs.flatten)) blobs

section Files

variable {mac : HeaderStart → BitVec 512} {image : Image} {blobs : List Bytes}
  {file : Option Bytes}

theorem fileHolds_of_write (packed : Packed image blobs)
    (hmac : image.head.hmac = mac image.head.start) {events : Events}
    (written : events.fileWrite = none) : FileHolds mac (hksFileWrite image events).1 blobs := by
  obtain ⟨spare, rest⟩ := packed.rest
  rw [hksFileWrite, written]
  rw [packed.totalLen, Nat.add_sub_cancel_left, rest, take_left]
  exact .written image.head blobs
    ⟨⟨[], (append_nil _).symm⟩, packed.totalLen, packed.keyCount, packed.short,
      packed.formed, packed.unique⟩ hmac

theorem hksFileRead_missing (buffer : Bytes) (events : ReadEvents) :
    hksFileRead none buffer events = (buffer, 0) := by
  rw [hksFileRead]
  split
  · rfl
  · rfl

theorem hksFileRead_good {bytes buffer : Bytes} (some_ : 0 < buffer.length)
    (long : buffer.length ≤ bytes.length) :
    hksFileRead (some bytes) buffer (.good bytes) = (bytes.take buffer.length, buffer.length) := by
  have full : (bytes.take buffer.length).take bytes.length = bytes.take buffer.length := by
    rw [take_take, Nat.min_eq_right long]
  have whole : (bytes.take buffer.length).length = buffer.length := by
    rw [length_take, Nat.min_eq_left long]
  have able : ¬(buffer.length = 0 ∨ (ReadEvents.good bytes).name = false) := by
    rintro (none_ | fails)
    · omega
    · cases fails
  have large : ¬(bytes.length < buffer.length ∨ (ReadEvents.good bytes).opened = false) := by
    rintro (short | fails)
    · omega
    · cases fails
  have stat : (ReadEvents.good bytes).stat = some bytes.length := rfl
  have count : (ReadEvents.good bytes).count = some bytes.length := rfl
  rw [hksFileRead, if_neg able, stat, count]
  dsimp only
  rw [if_neg large, full, whole, drop_length, append_nil]

theorem packed_of_init {salt : Except Failure (BitVec 128)} {events : Events}
    (made : initImageBuffer mac salt events = .ok image) :
    Packed image [] ∧ image.head.hmac = mac image.head.start :=
  have holds := @holds_of_initImageBuffer mac salt events image ⟨some image, none⟩ made rfl
  ⟨holds.packed, holds.hmac⟩

theorem FileHolds.load (holds : FileHolds mac file blobs) {events : LoadEvents}
    (careful_ : carefulLoad mac file events = true)
    (result : loadFileToBuffer mac file events = .ok image) :
    Packed image blobs ∧ image.head.hmac = mac image.head.start := by
  rw [loadFileToBuffer] at result
  dsimp only at result
  cases holds with
  | missing =>
    rw [hksFileRead_missing] at result
    exact packed_of_init result
  | written head _ packed hmac =>
    rw [carefulLoad] at careful_
    rw [headerOfBytes_append] at careful_
    split at result
    · next nothing =>
      rw [if_pos nothing] at careful_
      rcases Bool.or_eq_true_iff.mp careful_ with empty | fails
      · have count := packed.keyCount
        rw [of_decide_eq_true empty] at count
        obtain rfl : blobs = [] := length_eq_zero_iff.mp count.symm
        exact packed_of_init result
      · rw [result] at fails
        cases fails
    · next something =>
      rw [if_neg something] at careful_
      cases checked : checkKeyInfoHeaderValid mac (headerOfBytes (hksFileRead
          (some (head.bytes ++ blobs.flatten)) headerBuffer events.first).1) events.mac with
      | some failure =>
        rw [checked] at result
        cases result
      | none =>
        rw [checked] at result careful_
        rw [isSome_none, Bool.false_or, Bool.and_eq_true_iff] at careful_
        obtain ⟨same, all⟩ := careful_
        dsimp only at result
        rw [of_decide_eq_true same, freshImageBuffer] at result
        have long : head.start.totalLen.toNat = sizeofHeaderInfo + blobs.flatten.length :=
          packed.totalLen
        split at result
        · cases result
        split at result
        · next none_ =>
          obtain rfl := Except.ok.inj result
          obtain empty : blobs.flatten = [] := length_eq_zero_iff.mp (by omega)
          rw [empty] at packed
          exact ⟨packed, hmac⟩
        · next some_ =>
          rw [decide_eq_false some_] at all
          split at result
          · cases result
          next large =>
          rw [decide_eq_false large] at all
          cases memory : events.whole with
          | none =>
            rw [memory] at result
            cases result
          | some content =>
            rw [memory] at result all
            dsimp only at result
            rw [map_some, all_some] at all
            split at result
            · cases result
            next given =>
            rw [decide_eq_false given] at all
            obtain rfl := Except.ok.inj result
            rw [of_decide_eq_true all, headerOfBytes_append, drop_left' (length_bytes head)]
            exact ⟨packed, hmac⟩

theorem FileHolds.load_good (holds : FileHolds mac file blobs) (salt : BitVec 128)
    (content : Nat → BitVec 8) :
    ∃ image, loadFileToBuffer mac file (.good (file.getD []) salt content) = .ok image ∧
      Packed image blobs := by
  cases holds with
  | missing =>
    rw [loadFileToBuffer, hksFileRead_missing]
    exact ⟨_, rfl, (@packed_of_init mac _ (.ok salt) .good rfl).1⟩
  | written head _ packed hmac =>
    have long : head.start.totalLen.toNat = sizeofHeaderInfo + blobs.flatten.length :=
      packed.totalLen
    have short : head.start.totalLen.toNat ≤ maxStorageSize := packed.short
    have size : (head.bytes ++ blobs.flatten).length = head.start.totalLen.toNat := by
      rw [length_append, length_bytes, long]
    have buffer : headerBuffer.length = sizeofHeaderInfo := length_replicate
    have some_ : 0 < sizeofHeaderInfo := by decide
    have first : hksFileRead (some (head.bytes ++ blobs.flatten)) headerBuffer
        (.good (head.bytes ++ blobs.flatten)) = (head.bytes, sizeofHeaderInfo) := by
      rw [hksFileRead_good (by omega) (by omega), buffer, take_left' (length_bytes head)]
    have header : headerOfBytes head.bytes = head := by
      have read := headerOfBytes_append head []
      rwa [append_nil] at read
    have whole : (wholeBuffer content head.start.totalLen.toNat).length =
        head.start.totalLen.toNat := by
      rw [wholeBuffer, length_map, length_range]
    have second : hksFileRead (some (head.bytes ++ blobs.flatten))
        (wholeBuffer content head.start.totalLen.toNat) (.good (head.bytes ++ blobs.flatten)) =
          (head.bytes ++ blobs.flatten, head.start.totalLen.toNat) := by
      rw [hksFileRead_good (by omega) (by omega), whole, ← size, take_length]
    have checked : checkKeyInfoHeaderValid mac head .good = none := if_pos hmac.symm
    have fileSize : hksFileSize (some (head.bytes ++ blobs.flatten)) true
        (some (head.bytes ++ blobs.flatten).length) = head.start.totalLen.toNat := size
    rw [getD_some]
    generalize good : LoadEvents.good (head.bytes ++ blobs.flatten) salt content = events
    have firstGood : events.first = .good (head.bytes ++ blobs.flatten) := by rw [← good]; rfl
    have macGood : events.mac = .good := by rw [← good]; rfl
    have sizeName : events.sizeName = true := by rw [← good]; rfl
    have sizeStat : events.sizeStat = some (head.bytes ++ blobs.flatten).length := by
      rw [← good]
      rfl
    have memory : events.whole = some content := by rw [← good]; rfl
    have secondGood : events.second = .good (head.bytes ++ blobs.flatten) := by rw [← good]; rfl
    rw [loadFileToBuffer, firstGood, first, if_neg (Nat.ne_of_gt some_), macGood]
    dsimp only
    rw [header, checked]
    rw [freshImageBuffer, sizeName, sizeStat, memory, secondGood, fileSize, if_neg (by omega)]
    by_cases none_ : head.start.totalLen.toNat = sizeofHeaderInfo
    · obtain empty : blobs.flatten = [] := length_eq_zero_iff.mp (by omega)
      rw [if_pos none_]
      rw [empty] at packed
      exact ⟨_, rfl, packed⟩
    · rw [if_neg none_, if_neg (Nat.lt_irrefl _)]
      dsimp only
      rw [second, if_neg (Nat.ne_of_gt (by omega))]
      refine ⟨_, rfl, ?_⟩
      rw [headerOfBytes_append, drop_left' (length_bytes head)]
      exact packed

end Files

/-! ### Durability -/

section Durability

variable {mac : HeaderStart → BitVec 512} {system : System}

/-- The file and the image, if it is loaded, have the blobs that are stored and not deleted. -/
structure Tracks (mac : HeaderStart → BitVec 512) (system : System) (blobs : List Bytes) :
    Prop where
  file : FileHolds mac system.store.file blobs
  keys : ∀ keyAlias, system.keys keyAlias = lookup blobs keyAlias
  image : ∀ image, system.store.image = some image →
    Packed image blobs ∧ image.head.hmac = mac image.head.start

theorem gives_of_packed {image : Image} {blobs : List Bytes} {keys : Bytes → Option Bytes}
    (packed : Packed image blobs) (same : ∀ keyAlias, keys keyAlias = lookup blobs keyAlias) :
    Gives image keys := by
  intro keyAlias keyBlob stored
  rw [packed.get, ← same, stored]
  rfl

theorem Tracks.durable {blobs : List Bytes} (tracks : Tracks mac system blobs) :
    Durable mac system where
  loaded image loaded := gives_of_packed (tracks.image image loaded).1 tracks.keys
  recovered salt content := by
    obtain ⟨image, result, packed⟩ := tracks.file.load_good salt content
    refine ⟨image, ?_, gives_of_packed packed tracks.keys⟩
    rw [hksLoadFileToBuffer, if_neg (by simp), if_neg (by simp [LoadEvents.good]), result]

theorem Tracks.call {blobs : List Bytes} (tracks : Tracks mac system blobs) {call : Call}
    (formed : call.wellFormed) (succeeds : (system.store.call mac call).2 = none) :
    ∃ blobs, Tracks mac ⟨(system.store.call mac call).1, call.keys system.keys⟩ blobs := by
  cases loaded : system.store.image with
  | none =>
    cases call with
    | store keyAlias keyBlob events =>
      rw [KeyStore.call, hksStoreKeyBlob, loaded] at succeeds
      cases succeeds
    | delete keyAlias events =>
      rw [KeyStore.call, hksStoreDeleteKeyBlob, loaded] at succeeds
      cases succeeds
  | some image =>
    obtain ⟨packed, hmac⟩ := tracks.image image loaded
    have holds : Holds mac system.store image blobs := ⟨loaded, packed, hmac⟩
    have written {stored : Image} {after : List Bytes} {events : Events}
        (packed : Packed stored after) (hmac : stored.head.hmac = mac stored.head.start)
        (succeeds : events.fileWrite.map Prod.fst = none) {keys : Bytes → Option Bytes}
        (same : ∀ keyAlias, keys keyAlias = lookup after keyAlias) :
        Tracks mac ⟨⟨some stored, (hksFileWrite stored events).1⟩, keys⟩ after := by
      refine ⟨fileHolds_of_write packed hmac (map_eq_none_iff.mp succeeds), same, ?_⟩
      intro image equal
      obtain rfl := some_inj.mp equal
      exact ⟨packed, hmac⟩
    cases call with
    | store keyAlias keyBlob events =>
      obtain ⟨formed, rfl⟩ := formed
      generalize called : system.store.call mac (.store (aliasOf keyBlob) keyBlob events) =
        outcome at succeeds ⊢
      have cases_ : StoreOutcome mac system.store image blobs keyBlob events outcome :=
        called ▸ holds.storeOutcome formed
      cases cases_ with
      | refused failure _ => cases succeeds
      | full closed _ _ _ _ _ _ => cases succeeds
      | done stored _ _ _ packed hmac =>
        refine ⟨_, written packed hmac succeeds fun other => ?_⟩
        rw [lookup_append, ← tracks.keys]
        exact Function.update_apply _ _ _ _
    | delete keyAlias events =>
      generalize called : system.store.call mac (.delete keyAlias events) = outcome at succeeds ⊢
      have cases_ : DeleteOutcome mac system.store blobs keyAlias events outcome :=
        called ▸ holds.deleteOutcome
      cases cases_ with
      | refused failure _ => cases succeeds
      | done stored _ _ packed hmac =>
        refine ⟨_, written packed hmac succeeds fun other => ?_⟩
        rw [lookup_without, ← tracks.keys]
        exact Function.update_apply _ _ _ _

theorem Tracks.step {blobs : List Bytes} (tracks : Tracks mac system blobs) {action : Action}
    (careful_ : careful mac system action) {next : System}
    (result : step mac system action = some next) : ∃ blobs, Tracks mac next blobs := by
  cases action with
  | call call =>
    obtain ⟨succeeds, equal⟩ := ite_none_right_eq_some.mp result
    obtain rfl := some_inj.mp equal
    exact tracks.call careful_ succeeds
  | restart =>
    obtain rfl := some_inj.mp result
    exact ⟨blobs, tracks.file, tracks.keys, fun image loaded =>
      absurd loaded (some_ne_none image).symm⟩
  | load events =>
    obtain rfl := some_inj.mp result
    refine ⟨blobs, ?_⟩
    rw [hksLoadFileToBuffer]
    cases loaded : system.store.image with
    | some image => exact tracks
    | none =>
      rw [if_neg (by simp)]
      split
      · exact tracks
      next memory =>
      have met := careful_ loaded (eq_true_of_ne_false memory)
      cases load : loadFileToBuffer mac system.store.file events with
      | error failure =>
        exact ⟨tracks.file, tracks.keys, fun image equal =>
          absurd equal (some_ne_none image).symm⟩
      | ok image =>
        refine ⟨tracks.file, tracks.keys, fun other equal => ?_⟩
        obtain rfl := some_inj.mp equal
        exact tracks.file.load met load

/-- In every run of calls that succeed, restarts, and careful loads, every key that is stored and
not deleted is returned unchanged when the image is loaded, and a load in which nothing fails
recovers it. -/
theorem durable_of_reachable (reached : Reachable (step mac) (careful mac) Blank system) :
    Durable mac system := by
  have tracks : ∃ blobs, Tracks mac system blobs := by
    refine @Reachable.invariant _ _ _ _ _ system (fun system => ∃ blobs, Tracks mac system blobs)
      (fun first blank => ?_) (fun _ _ _ _ before meets result => ?_) reached
    · obtain rfl : first = ⟨⟨none, none⟩, fun _ => none⟩ := blank
      exact ⟨[], .missing, fun _ => rfl, fun image equal =>
        absurd equal (Option.some_ne_none image).symm⟩
    · obtain ⟨blobs, tracks⟩ := before
      exact tracks.step meets result
  obtain ⟨blobs, tracks⟩ := tracks
  exact tracks.durable

end Durability

/-- The calls and loads of a run that are careful. -/
def carefulTest (mac : HeaderStart → BitVec 512) (system : System) : Action → Bool
  | .call call => decide call.wellFormed
  | .restart => true
  | .load events =>
      system.store.image.isSome || !events.memory || carefulLoad mac system.store.file events

theorem carefulTest_sound {mac : HeaderStart → BitVec 512} (system : System) (action : Action)
    (met : carefulTest mac system action = true) : careful mac system action := by
  cases action with
  | call call =>
    change call.wellFormed
    exact of_decide_eq_true met
  | restart => trivial
  | load events =>
    intro unloaded memory
    rw [carefulTest, unloaded, memory] at met
    exact met

/-- Well-formed calls, and any loads. -/
def wellFormedTest : Action → Bool
  | .call call => decide call.wellFormed
  | .restart => true
  | .load _ => true

def blank : System :=
  ⟨⟨none, none⟩, fun _ => none⟩

def keyFile : Bytes :=
  let start : HeaderStart := { initHeader 5 with
    keyCount := 1, totalLen := BitVec.ofNat 32 (sizeofHeaderInfo + (blobOf [1] [11, 12]).length) }
  HeaderInfo.bytes ⟨start, sampleMac start⟩ ++ blobOf [1] [11, 12]

/-- The first boot and a key; a restart, and a load whose second read fails, another one in which
nothing fails, and another key. -/
def twoBoots : List Action :=
  [.load (.good [] 5 fun _ => 0), .call (.store [1] (blobOf [1] [11, 12]) .good), .restart,
    .load { LoadEvents.good keyFile 5 (fun _ => 0) with
      second := { ReadEvents.good keyFile with count := none } },
    .load (.good keyFile 5 fun _ => 0), .call (.store [2] (blobOf [2] [13]) .good)]

theorem durable_of_reachable_sample : ∃ system,
    execute (step sampleMac) (carefulTest sampleMac) blank twoBoots = some system ∧
      system.store.image.map (fun image => image.stored [1]) = some (some (blobOf [1] [11, 12])) ∧
        Durable sampleMac system := by
  have runs : (execute (step sampleMac) (carefulTest sampleMac) blank twoBoots).map
      (fun system => system.store.image.map fun image => image.stored [1]) =
        some (some (some (blobOf [1] [11, 12]))) := by
    decide +kernel
  obtain ⟨system, result, gives⟩ := Option.map_eq_some_iff.mp runs
  exact ⟨system, result, gives,
    durable_of_reachable (.of_execute carefulTest_sound _ (.start rfl) result)⟩

/-- After a restart the size of the file cannot be read: the load succeeds with an image without
keys, and the next store writes it over the file. -/
def missingSize : List Action :=
  [.load (.good [] 5 fun _ => 0), .call (.store [1] (blobOf [1] [11, 12]) .good), .restart,
    .load { LoadEvents.good keyFile 6 (fun _ => 0) with
      first := { ReadEvents.good keyFile with stat := none } },
    .call (.store [2] (blobOf [2] [13]) .good)]

/-- The key is lost, in memory and in the file. -/
theorem key_forgotten : ∃ system,
    Reachable (step sampleMac) (fun _ action => wellFormedTest action = true) Blank system ∧
      system.keys [1] = some (blobOf [1] [11, 12]) ∧
      system.store.image.map (fun image => image.stored [1]) = some none ∧
      (loadFileToBuffer sampleMac system.store.file
          (.good (system.store.file.getD []) 5 fun _ => 0)).toOption.map
        (fun image => image.stored [1]) = some none ∧
      ¬Durable sampleMac system := by
  have runs : (execute (step sampleMac) (fun _ => wellFormedTest) blank missingSize).map
      (fun system => (system.keys [1], system.store.image.map (fun image => image.stored [1]),
          (loadFileToBuffer sampleMac system.store.file
            (.good (system.store.file.getD []) 5 fun _ => 0)).toOption.map
              fun image => image.stored [1])) =
      some (some (blobOf [1] [11, 12]), some none, some none) := by
    decide +kernel
  obtain ⟨system, result, observed⟩ := Option.map_eq_some_iff.mp runs
  obtain ⟨stored, observed⟩ := Prod.mk.inj observed
  obtain ⟨loaded, later⟩ := Prod.mk.inj observed
  refine ⟨system, .of_execute (fun _ _ met => met) _ (.start rfl) result, stored, loaded, later,
    fun durable => ?_⟩
  obtain ⟨image, here, missing⟩ := Option.map_eq_some_iff.mp loaded
  have given := durable.loaded image here [1] _ stored
  rw [Image.stored, given] at missing
  cases missing

end TowerSafe.KeyFile
