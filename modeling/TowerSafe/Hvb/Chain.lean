/-
This file embeds `hvb_chain_verify`: the certificate of the root of trust is verified and its key is
accepted, its image is verified, and then the certificate of each partition that the image
describes, with the key that the image designates. It says exactly when what has been verified at
the end is all that should have been.
-/

import TowerSafe.Hvb.Parse

namespace TowerSafe.Hvb

open Library List
open Option (map_eq_some_iff some.inj)

/-! ### The environment -/

/-- A string, without its terminator. -/
abbrev Name := Bytes

/-- The members of `struct hvb_ops` that are used: what can be read of a partition from an offset
on, whether a key is trusted, and the rollback index that is stored at a location. Each may fail. -/
structure HvbOps where
  readPartition : Name → Int → Nat → Option Bytes
  validRvtKey : Bytes → Option Bool
  readRollback : Nat → Option Nat

/-- `struct hvb_rsa_pubkey`, with what its pointers point to. -/
structure RsaKey where
  width : Nat
  pn : Bytes
  rr : Bytes
  n0 : Nat
  deriving DecidableEq

/-- The machine: the number of bits of an address, the address that each allocation of a size gets,
what stands in the memory of `rollback_indexes` and in the memory outside of a buffer, what stands
on the stack behind a descriptor, the two primitives, and what comes of the command line. -/
structure Machine where
  bits : Nat
  malloc : Nat → Nat → Option Nat
  garbage : Nat → Nat
  outside : Memory
  stack : Bytes
  sha256 : Bytes → Bytes
  rsaVerifyPss : RsaKey → Bytes → Bytes → Nat → Bool
  creatCmdline : Except HvbErrno Unit

/-- A buffer that was allocated and filled. -/
structure Buffer where
  addr : Nat
  bytes : Bytes
  deriving DecidableEq

namespace Buffer

def buf (buffer : Buffer) : HvbBuf := ⟨buffer.addr, buffer.bytes.length⟩

/-- The memory, as far as a buffer is concerned. -/
def memory (machine : Machine) (buffer : Buffer) : Memory := fun address =>
  if buffer.addr ≤ address then
    buffer.bytes.getD (address - buffer.addr) (machine.outside address)
  else machine.outside address

end Buffer

/-- `struct hvb_cert_data`, whose name may be missing, and the partition it is of. -/
structure CertData where
  partitionName : Option Name
  data : Buffer
  ptn : Name
  deriving DecidableEq

/-- `struct hvb_image_data`, whose name may be missing, and the partition it is of. -/
structure ImageData where
  partitionName : Option Name
  data : Buffer
  ptn : Name
  deriving DecidableEq

/-- The fields of `struct hvb_verified_data` that are used. -/
structure VerifiedData where
  certs : List CertData
  images : List ImageData
  rollbackIndexes : Nat → Nat

/-- The verified data, and how many allocations there were. -/
structure State where
  vd : VerifiedData
  allocated : Nat

/-- A part of the verification. When it fails the verified data is freed. -/
abbrev Chain (Value : Type) := State → Except HvbErrno (Value × State)

namespace Chain

variable {Value Next : Type}

instance : Monad Chain where
  pure value := fun state => .ok (value, state)
  bind chain next := fun state =>
    match chain state with
    | .error errno => .error errno
    | .ok (value, state) => next value state

def failWith (errno : HvbErrno) : Chain Value := fun _ => .error errno

/-- An error that depends on the verified data. -/
def failWhen (condition : VerifiedData → Bool) (errno : HvbErrno) : Chain Unit := fun state =>
  if condition state.vd then .error errno else .ok ((), state)

def failIf (condition : Prop) [Decidable condition] (errno : HvbErrno) : Chain Unit :=
  if condition then failWith errno else pure ()

def orFail (errno : HvbErrno) : Option Value → Chain Value
  | none => failWith errno
  | some value => pure value

def ofParser (reading : Reading HvbErrno Value) : Chain Value :=
  match reading.result with
  | .error errno => failWith errno
  | .ok value => pure value

def change (update : VerifiedData → VerifiedData) : Chain Unit := fun state =>
  .ok ((), { state with vd := update state.vd })

/-- What the next allocation gets. The size is in the type `size_t`. -/
def address (machine : Machine) (size : Nat) (state : State) : Option Nat :=
  machine.malloc state.allocated (size % 2 ^ machine.bits)

/-- `hvb_malloc`, where a failure is an error. -/
def granted (machine : Machine) (size : Nat) : Chain Nat := fun state =>
  match address machine size state with
  | none => .error .oom
  | some addr => .ok (addr, { state with allocated := state.allocated + 1 })

/-- `hvb_strdup`, whose result is used unchecked. -/
def hvbStrdup (machine : Machine) (name : Name) : Chain (Option Name) := fun state =>
  .ok ((address machine (name.length + 1) state).map fun _ => name,
    { state with allocated := state.allocated + 1 })

end Chain

open Chain

/-! ### Certificates and images -/

def hvbMaxNumberOfRollbackIndexLocations : Nat := 32

def hvbMaxNumberOfLoadedCerts : Nat := 32

def hvbMaxNumberOfLoadedImages : Nat := 32

def hvbSha256DigestBytes : Nat := 32

def hvbImageTypeHash : Nat := 1

/-- A length in the type `uint32_t`, and the bytes of an area with that length. -/
def bytes32 (memory : Memory) (area : HvbBuf) : Bytes :=
  Area.bytes memory ⟨area.addr, area.size % 2 ^ 32⟩

def hvbNeedVerifyHash (hashPtnList : List Name) (ptn : Name) : Bool :=
  hashPtnList.any fun name => name == ptn

def getHashSize (algo : Nat) : Nat := if algo ≤ 2 then hvbSha256DigestBytes else 0

/-- `hvb_compare_hash`. The digest of `hash_ctx_init` is `HASH_ALG_SHA256` alone. -/
def hvbCompareHash (machine : Machine) (memory : Memory) (cert : HvbCert) (image : Bytes) :
    Chain Unit := do
  failIf (getHashSize cert.hashAlgo ≠ cert.digestSize) .invalidArgument
  failIf (cert.hashAlgo ≠ 0) .verifyHash
  failIf (machine.sha256 (bytes32 memory ⟨cert.salt, cert.saltSize⟩ ++
      image.take (image.length % 2 ^ 32)) ≠
    Area.bytes memory ⟨cert.digest, hvbSha256DigestBytes⟩) .verifyHash

def hashImageInitDesc (machine : Machine) (ops : HvbOps) (ptn : Name) (memory : Memory)
    (cert : HvbCert) (hashPtnList : List Name) : Chain Unit := do
  if cert.verityType ≠ hvbImageTypeHash ∨ hvbNeedVerifyHash hashPtnList ptn = false then pure ()
  else
    let addr ← granted machine cert.imageOriginalLen
    let image ← orFail .io (ops.readPartition ptn 0 cert.imageOriginalLen)
    failIf (image.length ≠ cert.imageOriginalLen) .io
    hvbCompareHash machine memory cert image
    failWhen (fun vd => decide (hvbMaxNumberOfLoadedImages ≤ vd.images.length)) .oom
    let name ← hvbStrdup machine ptn
    change fun vd => { vd with images := vd.images ++ [⟨name, ⟨addr, image⟩, ptn⟩] }

/-- `hvb_verify_cert`. A hash that is shorter than a digest is an error of `hash_sha256_single`. -/
def hvbVerifyCert (machine : Machine) (memory : Memory) (tbs : HvbBuf) (signInfo : HvbSignInfo)
    (saltSize : Nat) : Chain Unit := do
  let pubk ← ofParser (hvbCertPubkParser machine.bits memory signInfo.pubk)
  let hashLen := getHashSize signInfo.algorithm
  let _ ← granted machine hashLen
  failIf (hashLen < hvbSha256DigestBytes) .invalidArgument
  failIf (machine.rsaVerifyPss
      ⟨pubk.width % 2 ^ 32, bytes32 memory pubk.mod, bytes32 memory pubk.rr, pubk.n0⟩
      (machine.sha256 (bytes32 memory tbs)) (bytes32 memory signInfo.sign)
      (saltSize % 2 ^ 32) = false) .verifySign

def checkRollbackIndex (ops : HvbOps) (cert : HvbCert) : Chain Unit := do
  failIf (hvbMaxNumberOfRollbackIndexLocations ≤ cert.rollbackLocation) .invalidCertFormat
  let stored ← orFail .io (ops.readRollback cert.rollbackLocation)
  failIf (cert.rollbackIndex < stored) .rollbackIndex
  change fun vd =>
    { vd with
      rollbackIndexes :=
        Function.update vd.rollbackIndexes cert.rollbackLocation cert.rollbackIndex }

/-- `cert_init_desc`, with the bytes of the key that it returns. -/
def certInitDesc (machine : Machine) (ops : HvbOps) (ptn : Name) (certBuf : Buffer)
    (hashPtnList : List Name) : Chain Bytes := do
  let memory := certBuf.memory machine
  let cert ← ofParser (hvbCertParser machine.bits memory certBuf.buf)
  let tbs := ⟨certBuf.addr, cert.signatureInfo.sign.addr - certBuf.addr⟩
  hvbVerifyCert machine memory tbs cert.signatureInfo cert.saltSize
  checkRollbackIndex ops cert
  hashImageInitDesc machine ops ptn memory cert hashPtnList
  pure (Area.bytes memory cert.signatureInfo.pubk)

def loadAndParseFooter (ops : HvbOps) (ptn : Name) : Chain HvbFooter := do
  let bytes ← orFail .io (ops.readPartition ptn (-hvbFooterSize) hvbFooterSize)
  failIf (bytes.length ≠ hvbFooterSize) .io
  ofParser (footerParser (fun address => bytes.getD address 0) ⟨0, hvbFooterSize⟩)

/-- `_load_cert`. The offset is in the type `int64_t`. -/
def loadCert (ops : HvbOps) (ptn : Name) (footer : HvbFooter) : Chain Bytes := do
  let bytes ← orFail .io
    (ops.readPartition ptn (BitVec.ofNat 64 footer.certOffset).toInt footer.certSize)
  failIf (bytes.length ≠ footer.certSize) .io
  pure bytes

/-- `footer_init_desc`, with the bytes of the key that it returns. -/
def footerInitDesc (machine : Machine) (ops : HvbOps) (ptn : Name) (hashPtnList : List Name) :
    Chain Bytes := do
  let footer ← loadAndParseFooter ops ptn
  let addr ← granted machine footer.certSize
  let bytes ← loadCert ops ptn footer
  let key ← certInitDesc machine ops ptn ⟨addr, bytes⟩ hashPtnList
  failWhen (fun vd => decide (hvbMaxNumberOfLoadedCerts ≤ vd.certs.length)) .oom
  let name ← hvbStrdup machine ptn
  change fun vd => { vd with certs := vd.certs ++ [⟨name, ⟨addr, bytes⟩, ptn⟩] }
  pure key

/-! ### The chain -/

/-- `hash_ptn_list_add_rvt`, where no list is an empty one. -/
def hashPtnListAddRvt (hashPtnList : List Name) (rvtPtn : Name) : List Name :=
  if hashPtnList.any fun name => name == rvtPtn then hashPtnList else hashPtnList ++ [rvtPtn]

/-- `hvb_init_verified_data`, whose sizes are those with addresses of eight bytes. Of the verified
data only the arrays are cleared. -/
def hvbInitVerifiedData (machine : Machine) : Chain Unit := do
  let _ ← granted machine 312
  let _ ← granted machine 1024
  let _ ← granted machine 1024
  let _ ← granted machine 4096
  change fun _ => ⟨[], [], machine.garbage⟩

def hvbRvtVerifyRoot (machine : Machine) (ops : HvbOps) (ptn : Name) (ptnList : List Name) :
    Chain Unit := do
  let certPubk ← footerInitDesc machine ops ptn ptnList
  let isTrusted ← orFail .publicKeyRejected (ops.validRvtKey certPubk)
  failIf (isTrusted = false) .publicKeyRejected

/-- `hvb_get_partition_image`, undefined when a name before the one that is found is missing. -/
def hvbGetPartitionImage (ptn : Name) : List ImageData → Option (Option Buffer)
  | [] => some none
  | image :: rest =>
      image.partitionName.bind fun name =>
        if ptn.isPrefixOf name then some (some image.data) else hvbGetPartitionImage ptn rest

/-- The string at the name of a descriptor. -/
def nameOf (machine : Machine) (desc : RvtPubkDesc) : Name :=
  (desc.bytes ++ machine.stack).takeWhile fun byte => byte != 0

/-- What `hvb_walk_verify_nodes` does with a descriptor, with `hvb_buf_equal`. -/
def verifyNode (machine : Machine) (ops : HvbOps) (ptnList : List Name) (memory : Memory)
    (state : State) (desc : RvtPubkDesc) (expectedPubk : HvbBuf) : Reading HvbErrno State :=
  match footerInitDesc machine ops (nameOf machine desc) ptnList state with
  | .error errno => .fail errno
  | .ok (certPubk, state) =>
      if expectedPubk.size ≠ certPubk.length then .fail .publicKeyRejected
      else do
        let bytes ← .read memory expectedPubk
        if bytes = certPubk then pure state else .fail .publicKeyRejected

/-- What `hvb_chain_verify` returns, with the verified data when it is `HVB_OK`, and `*out_vd`. -/
structure ChainResult where
  ret : Except HvbErrno VerifiedData
  out : Option VerifiedData

/-- `hvb_chain_verify` up to the image of the root of trust. -/
def verifyRoot (machine : Machine) (ops : HvbOps) (rvtPtn : Name) (hashPtnList : List Name) :
    Chain Unit := do
  let _ ← granted machine ((hashPtnList.length + 2) * (machine.bits / 8))
  hvbInitVerifiedData machine
  hvbRvtVerifyRoot machine ops rvtPtn (hashPtnListAddRvt hashPtnList rvtPtn)

/-- `hvb_chain_verify`, with whether `out_vd` is there. -/
def hvbChainVerify (machine : Machine) (ops : Option HvbOps) (rvtPtn : Option Name)
    (hashPtnList : List Name) (wanted : Bool) : Option ChainResult :=
  match ops, rvtPtn with
  | some ops, some rvtPtn =>
      match verifyRoot machine ops rvtPtn hashPtnList ⟨⟨[], [], machine.garbage⟩, 0⟩ with
      | .error errno => some ⟨.error errno, none⟩
      | .ok ((), state) =>
          (hvbGetPartitionImage rvtPtn state.vd.images).map fun
            | none => ⟨.error .oom, none⟩
            | some image =>
                match (hvbWalkVerifyNodes machine.bits (image.memory machine) image.buf
                  (verifyNode machine ops (hashPtnListAddRvt hashPtnList rvtPtn)
                    (image.memory machine)) state).result, machine.creatCmdline with
                | .error errno, _ => ⟨.error errno, none⟩
                | .ok _, .error errno => ⟨.error errno, none⟩
                | .ok state, .ok () => ⟨.ok state.vd, if wanted then some state.vd else none⟩
  | _, _ => some ⟨.error .invalidArgument, none⟩

/-! ### What is to be verified -/

def storedFooter (ops : HvbOps) (ptn : Name) : Option HvbFooter :=
  (ops.readPartition ptn (-hvbFooterSize) hvbFooterSize).bind fun bytes =>
    (footerParser (fun address => bytes.getD address 0) ⟨0, hvbFooterSize⟩).result.toOption

/-- The certificate of a partition. -/
def storedCert (ops : HvbOps) (ptn : Name) : Option Bytes :=
  (storedFooter ops ptn).bind fun footer =>
    ops.readPartition ptn (BitVec.ofNat 64 footer.certOffset).toInt footer.certSize

def imageLen (cert : Bytes) : Nat := field cert 48 8

def location (cert : Bytes) : Nat := field cert 128 8

def verityType (cert : Bytes) : Nat := field cert 144 4

/-- The image of the root of trust. -/
def rvtImage (ops : HvbOps) (rvtPtn : Name) : Option Bytes :=
  (storedCert ops rvtPtn).bind fun cert => ops.readPartition rvtPtn 0 (imageLen cert)

def nodesNum (image : Bytes) : Nat := field image 4 4

def imageDesc (image : Bytes) (place : Nat) : RvtPubkDesc :=
  ⟨(image.drop (rvtHeaderSize + place * rvtPubkDescSize)).take rvtPubkDescSize⟩

def RvtPubkDesc.partition (desc : RvtPubkDesc) : Name :=
  desc.name.takeWhile fun byte => byte != 0

/-- A loaded certificate is that of its partition, and parsed. -/
structure Parsed (machine : Machine) (ops : HvbOps) (loaded : CertData) (cert : HvbCert) :
    Prop where
  stored : storedCert ops loaded.ptn = some loaded.data.bytes
  parsed : (hvbCertParser machine.bits (loaded.data.memory machine) loaded.data.buf).result =
    .ok cert

/-- The key of a loaded certificate. -/
def CertData.key (machine : Machine) (loaded : CertData) (cert : HvbCert) : Bytes :=
  Area.bytes (loaded.data.memory machine) cert.signatureInfo.pubk

/-- The signature of a certificate verifies over all before it under the key of the certificate. -/
def Signed (machine : Machine) (loaded : CertData) (cert : HvbCert) : Prop :=
  ∃ pubk, (hvbCertPubkParser machine.bits (loaded.data.memory machine)
      cert.signatureInfo.pubk).result = .ok pubk ∧
    machine.rsaVerifyPss
      ⟨pubk.width % 2 ^ 32, Area.bytes (loaded.data.memory machine) pubk.mod,
        Area.bytes (loaded.data.memory machine) pubk.rr, pubk.n0⟩
      (machine.sha256
        (loaded.data.bytes.take (cert.signatureInfo.sign.addr - loaded.data.addr)))
      (Area.bytes (loaded.data.memory machine) cert.signatureInfo.sign)
      (cert.saltSize % 2 ^ machine.bits) = true

/-- The rollback index of a certificate is not below the one that is stored at its location. -/
def Fresh (ops : HvbOps) (cert : HvbCert) : Prop :=
  cert.rollbackLocation < hvbMaxNumberOfRollbackIndexLocations ∧
    ∃ stored, ops.readRollback cert.rollbackLocation = some stored ∧ stored ≤ cert.rollbackIndex

/-- The whole image of the partition matches the salted digest of the certificate. -/
def Hashed (machine : Machine) (ops : HvbOps) (loaded : CertData) (cert : HvbCert) : Prop :=
  ∃ image, ops.readPartition loaded.ptn 0 cert.imageOriginalLen = some image ∧
    image.length = cert.imageOriginalLen ∧
      machine.sha256
          (Area.bytes (loaded.data.memory machine)
            ⟨cert.salt, cert.saltSize % 2 ^ machine.bits⟩ ++ image) =
        Area.bytes (loaded.data.memory machine) ⟨cert.digest, cert.digestSize⟩

/-- A loaded certificate is verified, and the image of its partition if it is to be. -/
structure Checked (machine : Machine) (ops : HvbOps) (wanted : Name → Prop) (loaded : CertData)
    (cert : HvbCert) : Prop where
  parsed : Parsed machine ops loaded cert
  signed : Signed machine loaded cert
  fresh : Fresh ops cert
  hashed : wanted loaded.ptn → verityType loaded.data.bytes = hvbImageTypeHash →
    Hashed machine ops loaded cert

/-- For a descriptor the certificate of its partition is loaded, and has the key that the descriptor
designates in the image. -/
def NodeVerified (machine : Machine) (ops : HvbOps) (image : Bytes) (desc : RvtPubkDesc)
    (loaded : CertData) : Prop :=
  loaded.ptn = desc.partition ∧ desc.pubkeyOffset + desc.pubkeyLen ≤ image.length ∧
    ∃ cert, Parsed machine ops loaded cert ∧
      loaded.key machine cert = (image.drop desc.pubkeyOffset).take desc.pubkeyLen

/-- The verified data is all that it should be. -/
structure Sound (machine : Machine) (ops : HvbOps) (rvtPtn : Name) (hashPtnList : List Name)
    (vd : VerifiedData) : Prop where
  trusted : ∃ loaded cert, vd.certs[0]? = some loaded ∧ loaded.ptn = rvtPtn ∧
    Parsed machine ops loaded cert ∧ ops.validRvtKey (loaded.key machine cert) = some true
  certs : ∀ loaded ∈ vd.certs, ∃ cert,
    Checked machine ops (fun ptn => ptn ∈ hashPtnList ∨ ptn = rvtPtn) loaded cert
  nodes : ∀ image, rvtImage ops rvtPtn = some image →
    rvtHeaderSize + nodesNum image * rvtPubkDescSize ≤ image.length ∧
      ∀ place < nodesNum image, ∃ loaded, vd.certs[place + 1]? = some loaded ∧
        NodeVerified machine ops image (imageDesc image place) loaded
  requested : ∀ ptn ∈ hashPtnList, ∀ cert, storedCert ops ptn = some cert →
    verityType cert = hvbImageTypeHash → ∃ loaded ∈ vd.certs, loaded.ptn = ptn
  exported : ∀ place < hvbMaxNumberOfRollbackIndexLocations, ∀ stored,
    ops.readRollback place = some stored → stored ≤ vd.rollbackIndexes place

/-- The descriptors of an image lie in it, and so do the keys that they designate; the name of each
ends in its field, or the byte behind it is zero; each requested partition whose certificate is of
the hash type is described; and each rollback location is that of a certificate of the chain, or in
the memory of the exported indexes stands no less than the stored one. -/
structure InRange (machine : Machine) (ops : HvbOps) (rvtPtn : Name) (hashPtnList : List Name)
    (image : Bytes) : Prop where
  room : rvtHeaderSize + nodesNum image * rvtPubkDescSize ≤ image.length
  names : ∀ place < nodesNum image,
    0 ∈ (imageDesc image place).name ∨ field (imageDesc image place).bytes 64 1 = 0
  keys : ∀ place < nodesNum image,
    (imageDesc image place).pubkeyOffset + (imageDesc image place).pubkeyLen ≤ image.length
  requested : ∀ ptn ∈ hashPtnList, ∀ cert, storedCert ops ptn = some cert →
    verityType cert = hvbImageTypeHash →
      ptn = rvtPtn ∨ ∃ place < nodesNum image, (imageDesc image place).partition = ptn
  locations : ∀ place < hvbMaxNumberOfRollbackIndexLocations,
    (∀ cert, storedCert ops rvtPtn = some cert → location cert ≠ place) →
      (∀ node < nodesNum image, ∀ cert,
        storedCert ops (imageDesc image node).partition = some cert → location cert ≠ place) →
          ∀ stored, ops.readRollback place = some stored → stored ≤ machine.garbage place

/-- An address has 32 to 64 bits, what is allocated lies below the end of the addresses, and nothing
that is read of a partition has 2^32 bytes. -/
structure Machine.Fits (machine : Machine) (ops : HvbOps) : Prop where
  wide : 32 ≤ machine.bits
  narrow : machine.bits ≤ 64
  real : ∀ count size addr, machine.malloc count size = some addr →
    addr ≠ 0 ∧ addr + size < 2 ^ machine.bits
  short : ∀ ptn offset size bytes, ops.readPartition ptn offset size = some bytes →
    bytes.length < 2 ^ 32

/-! ### Parts of the verification -/

namespace Chain

variable {Value Next : Type} {state : State}

theorem bind_eq_ok {chain : Chain Value} {next : Value → Chain Next} {result : Next × State} :
    (chain >>= next) state = .ok result ↔
      ∃ value middle, chain state = .ok (value, middle) ∧ next value middle = .ok result := by
  have unfolded : (chain >>= next) state = match chain state with
      | .error errno => .error errno
      | .ok (value, middle) => next value middle := rfl
  rw [unfolded]
  cases first : chain state with
  | error errno => exact iff_of_false (fun no => by cases no) fun ⟨_, _, no, _⟩ => by cases no
  | ok pair =>
    refine ⟨fun result => ⟨pair.1, pair.2, rfl, result⟩, fun ⟨value, middle, same, result⟩ => ?_⟩
    obtain rfl := Except.ok.inj same
    exact result

theorem pure_eq_ok {value : Value} {result : Value × State} :
    (pure value : Chain Value) state = .ok result ↔ result = (value, state) :=
  ⟨fun same => (Except.ok.inj same).symm, fun same => congrArg Except.ok same.symm⟩

theorem failIf_eq_ok {condition : Prop} [Decidable condition] {errno : HvbErrno}
    {result : Unit × State} (passed : failIf condition errno state = .ok result) :
    ¬condition ∧ result = ((), state) := by
  unfold failIf at passed
  by_cases fails : condition
  · rw [if_pos fails] at passed
    cases passed
  · rw [if_neg fails] at passed
    exact ⟨fails, pure_eq_ok.mp passed⟩

variable {next : Value → Chain Next} {result : Next × State}

theorem failIf_bind {condition : Prop} [Decidable condition] {errno : HvbErrno}
    {next : Unit → Chain Next} (passed : (failIf condition errno >>= next) state = .ok result) :
    ¬condition ∧ next () state = .ok result := by
  obtain ⟨_, middle, first, second⟩ := bind_eq_ok.mp passed
  obtain ⟨holds, same⟩ := failIf_eq_ok first
  obtain ⟨-, rfl⟩ := Prod.mk.inj same
  exact ⟨holds, second⟩

theorem failWhen_bind {condition : VerifiedData → Bool} {errno : HvbErrno}
    {next : Unit → Chain Next} (passed : (failWhen condition errno >>= next) state = .ok result) :
    next () state = .ok result := by
  obtain ⟨_, middle, first, second⟩ := bind_eq_ok.mp passed
  unfold failWhen at first
  split at first
  · cases first
  · obtain ⟨-, rfl⟩ := Prod.mk.inj (Except.ok.inj first)
    exact second

theorem orFail_bind {errno : HvbErrno} {option : Option Value}
    (passed : (orFail errno option >>= next) state = .ok result) :
    ∃ value, option = some value ∧ next value state = .ok result := by
  cases option with
  | none => cases passed
  | some value => exact ⟨value, rfl, passed⟩

theorem ofParser_bind {reading : Reading HvbErrno Value}
    (passed : (ofParser reading >>= next) state = .ok result) :
    ∃ value, reading.result = .ok value ∧ next value state = .ok result := by
  unfold ofParser at passed
  cases parsed : reading.result with
  | error errno =>
    rw [parsed] at passed
    cases passed
  | ok value =>
    rw [parsed] at passed
    exact ⟨value, rfl, passed⟩

theorem change_bind {update : VerifiedData → VerifiedData} {next : Unit → Chain Next}
    (passed : (change update >>= next) state = .ok result) :
    next () { state with vd := update state.vd } = .ok result :=
  passed

theorem granted_bind {machine : Machine} {size : Nat} {next : Nat → Chain Next}
    (passed : (granted machine size >>= next) state = .ok result) :
    ∃ addr middle, address machine size state = some addr ∧ middle.vd = state.vd ∧
      next addr middle = .ok result := by
  obtain ⟨addr, middle, first, second⟩ := bind_eq_ok.mp passed
  unfold granted at first
  cases grant : address machine size state with
  | none =>
    rw [grant] at first
    cases first
  | some addr =>
    rw [grant] at first
    obtain ⟨rfl, rfl⟩ := Prod.mk.inj (Except.ok.inj first)
    exact ⟨addr, { state with allocated := state.allocated + 1 }, rfl, rfl, second⟩

theorem hvbStrdup_bind {machine : Machine} {name : Name} {next : Option Name → Chain Next}
    (passed : (hvbStrdup machine name >>= next) state = .ok result) :
    ∃ copy middle, (∀ other, copy = some other → other = name) ∧ middle.vd = state.vd ∧
      next copy middle = .ok result := by
  obtain ⟨copy, middle, first, second⟩ := bind_eq_ok.mp passed
  obtain ⟨rfl, rfl⟩ := Prod.mk.inj (Except.ok.inj first)
  refine ⟨(address machine (name.length + 1) state).map fun _ => name,
    { state with allocated := state.allocated + 1 }, fun other same => ?_, rfl, second⟩
  obtain ⟨_, -, rfl⟩ := map_eq_some_iff.mp same
  rfl

end Chain

/-! ### Buffers -/

section

variable {machine : Machine} {buffer : Buffer} {area : HvbBuf}

theorem Buffer.bytes_memory (inside : area.Inside buffer.buf) :
    Area.bytes (buffer.memory machine) area =
      (buffer.bytes.drop (area.addr - buffer.addr)).take area.size := by
  obtain ⟨start, stop⟩ := inside
  unfold Area.end_ at stop
  dsimp only [Buffer.buf] at start stop
  unfold Area.bytes
  refine ext_getElem ?_ fun place first second => ?_
  · rw [length_map, length_range, length_take, length_drop]
    omega
  · rw [length_map, length_range] at first
    rw [getElem_map, getElem_range, getElem_take, getElem_drop, Buffer.memory,
      if_pos (by omega)]
    have index : area.addr + place - buffer.addr = area.addr - buffer.addr + place := by omega
    rw [index, getD_eq_getElem?_getD, List.getElem?_eq_getElem (by omega), Option.getD_some]

theorem bytes32_eq {memory : Memory} (short : area.size < 2 ^ 32) :
    bytes32 memory area = Area.bytes memory area := by
  rw [bytes32, Nat.mod_eq_of_lt short]

theorem size_lt_of_inside {outer : HvbBuf} (inside : area.Inside outer)
    (short : outer.size < 2 ^ 32) : area.size < 2 ^ 32 := by
  obtain ⟨start, stop⟩ := inside
  unfold Area.end_ at stop
  omega

end

/-! ### What a certificate has passed -/

section

variable {machine : Machine} {ops : HvbOps} {ptn : Name} {ptnList : List Name}
  {state next : State} {data : Buffer} {cert : HvbCert} {loaded : CertData}

theorem cut_eq (wide : 32 ≤ machine.bits) {number : Nat}
    (short : number % 2 ^ machine.bits < 2 ^ 32) : number % 2 ^ 32 = number % 2 ^ machine.bits := by
  rw [← Nat.mod_mod_of_dvd number (Nat.pow_dvd_pow 2 wide), Nat.mod_eq_of_lt short]

theorem certHeader (wide : 32 ≤ machine.bits) (real : data.buf.end_ < 2 ^ machine.bits)
    (parsed : (hvbCertParser machine.bits (data.memory machine) data.buf).result = .ok cert) :
    cert.imageOriginalLen = imageLen data.bytes ∧ cert.rollbackLocation = location data.bytes ∧
      cert.verityType = verityType data.bytes := by
  obtain ⟨inside, isLen, isLocation, isType⟩ := hvbCertParser_header wide real parsed
  have header : Area.bytes (data.memory machine) ⟨data.buf.addr, certHeaderSize⟩ =
      data.bytes.take certHeaderSize := by
    rw [Buffer.bytes_memory inside]
    dsimp only [Buffer.buf]
    rw [Nat.sub_self, drop_zero]
  rw [header] at isLen isLocation isType
  refine ⟨isLen.trans (field_take ?_), isLocation.trans (field_take ?_),
    isType.trans (field_take ?_)⟩
  · decide
  · decide
  · decide

theorem hvbVerifyCert_ok (wide : 32 ≤ machine.bits) (real : data.buf.end_ < 2 ^ machine.bits)
    (short : data.bytes.length < 2 ^ 32)
    (parsed : (hvbCertParser machine.bits (data.memory machine) data.buf).result = .ok cert)
    (passed : hvbVerifyCert machine (data.memory machine)
      ⟨data.addr, cert.signatureInfo.sign.addr - data.addr⟩ cert.signatureInfo cert.saltSize
        state = .ok ((), next)) (isData : loaded.data = data) :
    Signed machine loaded cert ∧ next.vd = state.vd := by
  subst isData
  have laid := hvbCertParser_laid wide real parsed
  have inside : ∀ part ∈ cert.parts machine.bits loaded.data.buf, part.size < 2 ^ 32 :=
    fun part member => size_lt_of_inside (laid.inside part member) short
  have insidePubk := laid.inside cert.signatureInfo.pubk (by simp [HvbCert.parts])
  have insideSign := laid.inside cert.signatureInfo.sign (by simp [HvbCert.parts])
  have shortSalt := inside ⟨cert.salt, cert.saltSize % 2 ^ machine.bits⟩ (by simp [HvbCert.parts])
  obtain ⟨pubk, isPubk, passed⟩ := ofParser_bind passed
  obtain ⟨addr, middle, -, kept, passed⟩ := granted_bind passed
  obtain ⟨-, passed⟩ := failIf_bind passed
  obtain ⟨verifies, same⟩ := failIf_eq_ok passed
  obtain ⟨-, rfl⟩ := Prod.mk.inj same
  have realPubk : cert.signatureInfo.pubk.end_ < 2 ^ machine.bits :=
    Nat.lt_of_le_of_lt insidePubk.2 real
  obtain ⟨insideMod, insideRr⟩ := hvbCertPubkParser_inside wide realPubk isPubk
  have insideTbs : Area.Inside
      ⟨loaded.data.addr, cert.signatureInfo.sign.addr - loaded.data.addr⟩ loaded.data.buf := by
    obtain ⟨start, stop⟩ := insideSign
    unfold Area.Inside Area.end_
    unfold Area.end_ at stop
    dsimp only [Buffer.buf] at start stop ⊢
    omega
  rw [bytes32_eq (size_lt_of_inside (insideMod.trans insidePubk) short),
    bytes32_eq (size_lt_of_inside (insideRr.trans insidePubk) short),
    bytes32_eq (size_lt_of_inside insideTbs short), bytes32_eq (size_lt_of_inside insideSign short),
    cut_eq wide shortSalt, Buffer.bytes_memory insideTbs, Bool.not_eq_false] at verifies
  rw [Nat.sub_self] at verifies
  exact ⟨⟨pubk, isPubk, verifies⟩, kept⟩

theorem checkRollbackIndex_ok (passed : checkRollbackIndex ops cert state = .ok ((), next)) :
    Fresh ops cert ∧ next.vd =
      { state.vd with
        rollbackIndexes :=
          Function.update state.vd.rollbackIndexes cert.rollbackLocation cert.rollbackIndex } := by
  obtain ⟨below, passed⟩ := failIf_bind passed
  obtain ⟨stored, isStored, passed⟩ := orFail_bind passed
  obtain ⟨fresh, passed⟩ := failIf_bind passed
  obtain ⟨-, rfl⟩ := Prod.mk.inj (Except.ok.inj passed)
  exact ⟨⟨Nat.not_le.mp below, stored, isStored, Nat.not_lt.mp fresh⟩, rfl⟩

theorem buffer_real (fits : machine.Fits ops) {addr size : Nat} {bytes : Bytes} {offset : Int}
    (grant : address machine size state = some addr)
    (read : ops.readPartition ptn offset size = some bytes) (whole : bytes.length = size) :
    addr ≠ 0 ∧ (Buffer.mk addr bytes).buf.end_ < 2 ^ machine.bits := by
  have short := fits.short ptn offset size bytes read
  have most : 2 ^ 32 ≤ 2 ^ machine.bits := Nat.pow_le_pow_right (by decide) fits.wide
  unfold address at grant
  rw [Nat.mod_eq_of_lt (by omega)] at grant
  obtain ⟨some_, below⟩ := fits.real _ _ _ grant
  refine ⟨some_, ?_⟩
  unfold Area.end_
  dsimp only [Buffer.buf]
  omega

theorem hvbCompareHash_ok (fits : machine.Fits ops) {image : Bytes}
    (salt : cert.saltSize % 2 ^ machine.bits < 2 ^ 32)
    (short : image.length < 2 ^ 32) {memory : Memory}
    (passed : hvbCompareHash machine memory cert image state = .ok ((), next)) :
    machine.sha256 (Area.bytes memory ⟨cert.salt, cert.saltSize % 2 ^ machine.bits⟩ ++ image) =
      Area.bytes memory ⟨cert.digest, cert.digestSize⟩ ∧ next = state := by
  obtain ⟨size, passed⟩ := failIf_bind passed
  obtain ⟨algo, passed⟩ := failIf_bind passed
  obtain ⟨equal, same⟩ := failIf_eq_ok passed
  have isAlgo : cert.hashAlgo = 0 := Decidable.not_not.mp algo
  have isSize : getHashSize cert.hashAlgo = cert.digestSize := Decidable.not_not.mp size
  have hashed := Decidable.not_not.mp equal
  rw [isAlgo] at isSize
  rw [bytes32, cut_eq fits.wide salt, Nat.mod_eq_of_lt short, take_length] at hashed
  exact ⟨isSize ▸ hashed, (Prod.mk.inj same).2⟩

/-- An image that was loaded for a certificate. -/
structure ImageOf (machine : Machine) (ops : HvbOps) (ptn : Name) (len : Nat) (image : ImageData) :
    Prop where
  name : ∀ name, image.partitionName = some name → name = ptn
  read : ops.readPartition ptn 0 len = some image.data.bytes
  some_ : image.data.addr ≠ 0
  real : image.data.buf.end_ < 2 ^ machine.bits

theorem hashImageInitDesc_ok (fits : machine.Fits ops) (real : data.buf.end_ < 2 ^ machine.bits)
    (short : data.bytes.length < 2 ^ 32)
    (parsed : (hvbCertParser machine.bits (data.memory machine) data.buf).result = .ok cert)
    (passed : hashImageInitDesc machine ops ptn (data.memory machine) cert ptnList state =
      .ok ((), next)) (isData : loaded.data = data) (isPtn : loaded.ptn = ptn) :
    next.vd.certs = state.vd.certs ∧ next.vd.rollbackIndexes = state.vd.rollbackIndexes ∧
      (next.vd.images = state.vd.images ∨ ∃ image,
        ImageOf machine ops ptn (imageLen data.bytes) image ∧
          next.vd.images = state.vd.images ++ [image]) ∧
      (hvbNeedVerifyHash ptnList ptn = true → verityType data.bytes = hvbImageTypeHash →
        Hashed machine ops loaded cert) := by
  subst isData isPtn
  obtain ⟨isLen, -, isType⟩ := certHeader fits.wide real parsed
  have laid := hvbCertParser_laid fits.wide real parsed
  have salt := size_lt_of_inside
    (laid.inside ⟨cert.salt, cert.saltSize % 2 ^ machine.bits⟩ (by simp [HvbCert.parts])) short
  unfold hashImageInitDesc at passed
  split at passed
  · rename_i no
    obtain rfl := (Prod.mk.inj (pure_eq_ok.mp passed)).2
    refine ⟨rfl, rfl, .inl rfl, fun need hash => ?_⟩
    rcases no with no | no
    · exact absurd (isType.trans hash) no
    · rw [need] at no
      cases no
  · obtain ⟨addr, granted, grant, kept, passed⟩ := granted_bind passed
    obtain ⟨image, read, passed⟩ := orFail_bind passed
    obtain ⟨whole, passed⟩ := failIf_bind passed
    obtain ⟨_, compared, hashed, loads⟩ := bind_eq_ok.mp passed
    have isWhole : image.length = cert.imageOriginalLen := Decidable.not_not.mp whole
    obtain ⟨matches_, same⟩ := hvbCompareHash_ok fits salt (fits.short _ _ _ _ read) hashed
    obtain ⟨copy, middle, isCopy, keptCopy, stores⟩ := hvbStrdup_bind (failWhen_bind loads)
    obtain ⟨-, rfl⟩ := Prod.mk.inj (Except.ok.inj stores)
    obtain ⟨some_, below⟩ := buffer_real fits grant read isWhole
    rw [keptCopy, same, kept]
    exact ⟨rfl, rfl, .inr ⟨_, ⟨isCopy, isLen ▸ read, some_, below⟩, rfl⟩,
      fun _ _ => ⟨image, read, isWhole, matches_⟩⟩

theorem loadAndParseFooter_ok {footer : HvbFooter}
    (passed : loadAndParseFooter ops ptn state = .ok (footer, next)) :
    storedFooter ops ptn = some footer ∧ next = state := by
  obtain ⟨bytes, read, passed⟩ := orFail_bind passed
  obtain ⟨-, passed⟩ := failIf_bind passed
  unfold ofParser at passed
  cases parsed : (footerParser (fun address => bytes.getD address 0) ⟨0, hvbFooterSize⟩).result with
  | error errno =>
    rw [parsed] at passed
    cases passed
  | ok found =>
    rw [parsed] at passed
    obtain ⟨rfl, rfl⟩ := Prod.mk.inj (Except.ok.inj passed)
    refine ⟨?_, rfl⟩
    unfold storedFooter
    rw [read, Option.bind_some, parsed]
    rfl

theorem loadCert_ok {footer : HvbFooter} {bytes : Bytes}
    (isFooter : storedFooter ops ptn = some footer)
    (passed : loadCert ops ptn footer state = .ok (bytes, next)) :
    storedCert ops ptn = some bytes ∧ next = state ∧ bytes.length = footer.certSize ∧
      ops.readPartition ptn (BitVec.ofNat 64 footer.certOffset).toInt footer.certSize =
        some bytes := by
  obtain ⟨found, read, passed⟩ := orFail_bind passed
  obtain ⟨whole, passed⟩ := failIf_bind passed
  obtain ⟨rfl, rfl⟩ := Prod.mk.inj (pure_eq_ok.mp passed)
  refine ⟨?_, rfl, Decidable.not_not.mp whole, read⟩
  unfold storedCert
  rw [isFooter]
  exact read

/-- What `footer_init_desc` leaves behind when it succeeds: the certificate of the partition is
loaded and checked, its index is exported, and its image may be loaded. -/
structure Added (machine : Machine) (ops : HvbOps) (ptnList : List Name) (ptn : Name)
    (before after : VerifiedData) (key : Bytes) (loaded : CertData) (cert : HvbCert) : Prop where
  certs : after.certs = before.certs ++ [loaded]
  isPtn : loaded.ptn = ptn
  checked : Checked machine ops (fun name => hvbNeedVerifyHash ptnList name = true) loaded cert
  key : key = loaded.key machine cert
  location : cert.rollbackLocation = location loaded.data.bytes
  indexes : after.rollbackIndexes =
    Function.update before.rollbackIndexes cert.rollbackLocation cert.rollbackIndex
  images : after.images = before.images ∨ ∃ image,
    ImageOf machine ops ptn (imageLen loaded.data.bytes) image ∧
      after.images = before.images ++ [image]

theorem footerInitDesc_ok (fits : machine.Fits ops) {key : Bytes}
    (passed : footerInitDesc machine ops ptn ptnList state = .ok (key, next)) :
    ∃ loaded cert, Added machine ops ptnList ptn state.vd next.vd key loaded cert := by
  obtain ⟨footer, afterFooter, first, passed⟩ := bind_eq_ok.mp passed
  obtain ⟨isFooter, sameFooter⟩ := loadAndParseFooter_ok first
  obtain ⟨addr, allocated, grant, kept, passed⟩ := granted_bind passed
  obtain ⟨bytes, afterRead, second, passed⟩ := bind_eq_ok.mp passed
  obtain ⟨stored, sameRead, whole, read⟩ := loadCert_ok isFooter second
  obtain ⟨-, real⟩ := buffer_real fits grant read whole
  obtain ⟨certKey, described, third, passed⟩ := bind_eq_ok.mp passed
  obtain ⟨name, copied, -, keptName, passed⟩ := hvbStrdup_bind (failWhen_bind passed)
  have ends := change_bind passed
  obtain ⟨rfl, rfl⟩ := Prod.mk.inj (pure_eq_ok.mp ends)
  obtain ⟨cert, parsed, third⟩ := ofParser_bind third
  obtain ⟨_, verified, verifies, third⟩ := bind_eq_ok.mp third
  obtain ⟨_, checked, checks, third⟩ := bind_eq_ok.mp third
  obtain ⟨_, hashed, hashes, third⟩ := bind_eq_ok.mp third
  obtain ⟨isKey, sameHashed⟩ := Prod.mk.inj (pure_eq_ok.mp third)
  have short : bytes.length < 2 ^ 32 := fits.short _ _ _ _ read
  let loaded : CertData := ⟨name, ⟨addr, bytes⟩, ptn⟩
  obtain ⟨signed, keptVerified⟩ :=
    hvbVerifyCert_ok fits.wide real short parsed verifies (show loaded.data = _ from rfl)
  obtain ⟨fresh, keptChecked⟩ := checkRollbackIndex_ok checks
  obtain ⟨certs, indexes, images, isHashed⟩ :=
    hashImageInitDesc_ok fits real short parsed hashes (show loaded.data = _ from rfl) rfl
  obtain ⟨-, isLocation, -⟩ := certHeader fits.wide real parsed
  have before : verified.vd = state.vd := by rw [keptVerified, sameRead, kept, sameFooter]
  have isCopied : copied.vd = hashed.vd := by rw [keptName, sameHashed]
  rw [keptChecked, before] at certs indexes images
  refine ⟨loaded, cert,
    { certs := ?_, isPtn := rfl, checked := ⟨⟨stored, parsed⟩, signed, fresh, isHashed⟩,
      key := isKey, location := isLocation, indexes := ?_, images := ?_ }⟩
  · exact congrArg (· ++ [loaded]) ((congrArg VerifiedData.certs isCopied).trans certs)
  · exact (congrArg VerifiedData.rollbackIndexes isCopied).trans indexes
  · rw [isCopied]
    exact images

/-! ### The run -/

/-- Each loaded certificate is checked, and each exported index was never written or is not below
the stored one. -/
structure Kept (machine : Machine) (ops : HvbOps) (ptnList : List Name) (vd : VerifiedData) :
    Prop where
  certs : ∀ loaded ∈ vd.certs, ∃ cert,
    Checked machine ops (fun name => hvbNeedVerifyHash ptnList name = true) loaded cert
  indexes : ∀ place,
    (∀ loaded ∈ vd.certs, location loaded.data.bytes ≠ place) ∧
        vd.rollbackIndexes place = machine.garbage place ∨
      (∃ loaded ∈ vd.certs, location loaded.data.bytes = place) ∧
        ∀ stored, ops.readRollback place = some stored → stored ≤ vd.rollbackIndexes place

theorem Added.kept {before after : VerifiedData} {key : Bytes}
    (added : Added machine ops ptnList ptn before after key loaded cert)
    (kept : Kept machine ops ptnList before) : Kept machine ops ptnList after := by
  have isLocation := added.location
  refine ⟨fun other member => ?_, fun place => ?_⟩
  · rw [added.certs, mem_append, mem_singleton] at member
    rcases member with member | rfl
    · exact kept.certs other member
    · exact ⟨cert, added.checked⟩
  · rw [added.indexes, added.certs]
    by_cases here : place = cert.rollbackLocation
    · subst here
      rw [Function.update_self]
      refine .inr ⟨⟨loaded, mem_append_right _ mem_cons_self, isLocation.symm⟩,
        fun stored isStored => ?_⟩
      obtain ⟨-, found, isFound, fresh⟩ := added.checked.fresh
      rw [isFound] at isStored
      exact some.inj isStored ▸ fresh
    · rw [Function.update_of_ne here]
      rcases kept.indexes place with ⟨none_, garbage⟩ | ⟨⟨other, member, at_⟩, fresh⟩
      · refine .inl ⟨fun other member => ?_, garbage⟩
        rw [mem_append, mem_singleton] at member
        rcases member with member | rfl
        · exact none_ other member
        · exact fun same => here (same.symm.trans isLocation.symm)
      · exact .inr ⟨⟨other, mem_append_left _ member, at_⟩, fresh⟩

/-- A certificate that was loaded for a descriptor. -/
def LoadedFor (machine : Machine) (ops : HvbOps) (memory : Memory) (rvt : HvbBuf)
    (desc : RvtPubkDesc) (loaded : CertData) : Prop :=
  loaded.ptn = nameOf machine desc ∧ ∃ cert, Parsed machine ops loaded cert ∧
    loaded.key machine cert =
      Area.bytes memory ⟨(rvt.addr + desc.pubkeyOffset) % 2 ^ machine.bits, desc.pubkeyLen⟩

theorem verifyNode_ok (fits : machine.Fits ops) {memory : Memory} {desc : RvtPubkDesc}
    {expected : HvbBuf}
    (passed : (verifyNode machine ops ptnList memory state desc expected).result = .ok next) :
    ∃ loaded cert, Added machine ops ptnList (nameOf machine desc) state.vd next.vd
      (Area.bytes memory expected) loaded cert := by
  unfold verifyNode at passed
  cases described : footerInitDesc machine ops (nameOf machine desc) ptnList state with
  | error errno =>
    rw [described] at passed
    cases passed
  | ok pair =>
    rw [described] at passed
    dsimp only at passed
    obtain ⟨loaded, cert, added⟩ := footerInitDesc_ok fits described
    split at passed
    · cases passed
    obtain ⟨bytes, isBytes, passed⟩ := Reading.result_bind.mp passed
    obtain rfl := Except.ok.inj isBytes
    split at passed
    · rename_i equal
      obtain rfl := Reading.result_pure.mp passed
      exact ⟨loaded, cert, equal ▸ added⟩
    · cases passed

theorem walkNodes_ok (fits : machine.Fits ops) {memory : Memory} {rvt : HvbBuf}
    (some_ : rvt.addr ≠ 0) {nodes p size : Nat}
    (room : p + nodes * rvtPubkDescSize < 2 ^ machine.bits)
    (walked : (walkNodes machine.bits memory rvt (verifyNode machine ops ptnList memory) nodes
      ⟨p, size⟩ state).result = .ok next) (kept : Kept machine ops ptnList state.vd) :
    Kept machine ops ptnList next.vd ∧ ∃ added, next.vd.certs = state.vd.certs ++ added ∧
      added.length = nodes ∧ ∀ place < nodes, ∃ loaded, added[place]? = some loaded ∧
        LoadedFor machine ops memory rvt (descriptorAt memory (p + place * rvtPubkDescSize))
          loaded := by
  induction nodes generalizing p state with
  | zero =>
    obtain rfl := Reading.result_pure.mp walked
    exact ⟨kept, [], (append_nil _).symm, rfl, fun place no => absurd no (Nat.not_lt_zero _)⟩
  | succ nodes hypothesis =>
    rw [Nat.succ_mul] at room
    obtain ⟨desc, isDesc, walked⟩ := Reading.result_bind.mp walked
    obtain ⟨-, -, rfl⟩ := hvbRvtPubkDescParser_eq_ok.mp isDesc
    obtain ⟨expected, isExpected, walked⟩ := Reading.result_bind.mp walked
    obtain rfl := (hvbRvtGetPubkBuf_eq_ok some_).mp isExpected
    obtain ⟨middle, verified, walked⟩ := Reading.result_bind.mp walked
    obtain ⟨loaded, cert, first⟩ := verifyNode_ok fits verified
    dsimp only at walked first
    rw [Nat.mod_eq_of_lt (by omega)] at walked
    obtain ⟨keptAfter, rest, certs, length, each⟩ := hypothesis (by omega) walked (first.kept kept)
    refine ⟨keptAfter, loaded :: rest, ?_, congrArg Nat.succ length, fun place below => ?_⟩
    · rw [certs, first.certs, append_assoc]
      rfl
    · cases place with
      | zero =>
        exact ⟨loaded, rfl, first.isPtn, cert, first.checked.parsed, first.key.symm⟩
      | succ place =>
        have place_ : p + (place + 1) * rvtPubkDescSize =
            p + rvtPubkDescSize + place * rvtPubkDescSize := by
          rw [Nat.succ_mul]
          omega
        rw [place_]
        exact each place (Nat.lt_of_succ_lt_succ below)

theorem verifyRoot_ok (fits : machine.Fits ops) {rvtPtn : Name} {hashPtnList : List Name}
    (passed : verifyRoot machine ops rvtPtn hashPtnList state = .ok ((), next)) :
    ∃ loaded cert, Added machine ops (hashPtnListAddRvt hashPtnList rvtPtn) rvtPtn
      ⟨[], [], machine.garbage⟩ next.vd (loaded.key machine cert) loaded cert ∧
        ops.validRvtKey (loaded.key machine cert) = some true := by
  obtain ⟨_, listed, -, -, passed⟩ := granted_bind passed
  obtain ⟨_, cleared, initial, passed⟩ := bind_eq_ok.mp passed
  obtain ⟨_, _, -, -, initial⟩ := granted_bind initial
  obtain ⟨_, _, -, -, initial⟩ := granted_bind initial
  obtain ⟨_, _, -, -, initial⟩ := granted_bind initial
  obtain ⟨_, _, -, -, initial⟩ := granted_bind initial
  have isCleared : cleared.vd = ⟨[], [], machine.garbage⟩ :=
    congrArg State.vd (Prod.mk.inj (Except.ok.inj initial)).2.symm
  obtain ⟨key, described, footer, passed⟩ := bind_eq_ok.mp passed
  obtain ⟨loaded, cert, added⟩ := footerInitDesc_ok fits footer
  obtain ⟨isTrusted, valid, passed⟩ := orFail_bind passed
  obtain ⟨trusted, same⟩ := failIf_eq_ok passed
  rw [Bool.not_eq_false] at trusted
  rw [isCleared, ← (Prod.mk.inj same).2] at added
  rw [trusted, added.key] at valid
  exact ⟨loaded, cert, added.key ▸ added, valid⟩

/-- A run that was accepted: the root of trust was loaded with its image, and the walk over the
image went through. -/
structure Accepted (machine : Machine) (ops : HvbOps) (rvtPtn : Name) (ptnList : List Name)
    (vd : VerifiedData) (root : CertData) (image : Buffer) : Prop where
  isPtn : root.ptn = rvtPtn
  trusted : ∃ cert, Parsed machine ops root cert ∧
    ops.validRvtKey (root.key machine cert) = some true
  read : rvtImage ops rvtPtn = some image.bytes
  some_ : image.addr ≠ 0
  real : image.buf.end_ < 2 ^ machine.bits
  walked : ∃ before after : State, before.vd.certs = [root] ∧
    Kept machine ops ptnList before.vd ∧ after.vd = vd ∧
      (hvbWalkVerifyNodes machine.bits (image.memory machine) image.buf
        (verifyNode machine ops ptnList (image.memory machine)) before).result = .ok after

theorem kept_nil (machine : Machine) (ops : HvbOps) (ptnList : List Name) :
    Kept machine ops ptnList ⟨[], [], machine.garbage⟩ :=
  ⟨fun _ no => absurd no not_mem_nil, fun _ => .inl ⟨fun _ no => absurd no not_mem_nil,
    rfl⟩⟩

theorem rvtImage_of_found {rvtPtn : Name} {vd : VerifiedData} {key : Bytes} {image : Buffer}
    (added : Added machine ops ptnList rvtPtn ⟨[], [], machine.garbage⟩ vd key loaded cert)
    (found : hvbGetPartitionImage rvtPtn vd.images = some (some image)) :
    rvtImage ops rvtPtn = some image.bytes ∧ image.addr ≠ 0 ∧
      image.buf.end_ < 2 ^ machine.bits := by
  rcases added.images with none_ | ⟨only, imageOf, images⟩
  · rw [none_] at found
    cases found
  rw [images] at found
  obtain ⟨name, isName, found⟩ := Option.bind_eq_some_iff.mp found
  obtain rfl := imageOf.name name isName
  rw [if_pos (List.isPrefixOf_iff_prefix.mpr prefix_rfl)] at found
  obtain rfl := some.inj (some.inj found)
  refine ⟨?_, imageOf.some_, imageOf.real⟩
  have stored := added.checked.parsed.stored
  rw [added.isPtn] at stored
  unfold rvtImage
  rw [stored]
  exact imageOf.read

theorem hvbChainVerify_ok (fits : machine.Fits ops) {rvtPtn : Name} {hashPtnList : List Name}
    {wanted : Bool} {result : ChainResult} {vd : VerifiedData}
    (returned : hvbChainVerify machine (some ops) (some rvtPtn) hashPtnList wanted = some result)
    (ok : result.ret = .ok vd) :
    ∃ root image, Accepted machine ops rvtPtn (hashPtnListAddRvt hashPtnList rvtPtn) vd root
      image := by
  unfold hvbChainVerify at returned
  dsimp only at returned
  cases first : verifyRoot machine ops rvtPtn hashPtnList ⟨⟨[], [], machine.garbage⟩, 0⟩ with
  | error errno =>
    rw [first] at returned
    obtain rfl := some.inj returned
    cases ok
  | ok pair =>
    obtain ⟨_, before⟩ := pair
    rw [first] at returned
    obtain ⟨found, isFound, same⟩ := map_eq_some_iff.mp returned
    obtain ⟨root, cert, added, trusted⟩ := verifyRoot_ok fits first
    cases found with
    | none =>
      subst same
      cases ok
    | some image =>
      dsimp only at same
      cases walked : (hvbWalkVerifyNodes machine.bits (image.memory machine) image.buf
          (verifyNode machine ops (hashPtnListAddRvt hashPtnList rvtPtn) (image.memory machine))
            before).result with
      | error errno =>
        rw [walked] at same
        subst same
        cases ok
      | ok after =>
        cases command : machine.creatCmdline with
        | error errno =>
          rw [walked, command] at same
          subst same
          cases ok
        | ok _ =>
          rw [walked, command] at same
          subst same
          obtain ⟨read, some_, real⟩ := rvtImage_of_found added isFound
          exact ⟨root, image,
            { isPtn := added.isPtn, trusted := ⟨cert, added.checked.parsed, trusted⟩, read := read,
              some_ := some_, real := real,
              walked := ⟨before, after, added.certs, added.kept (kept_nil machine ops _),
                Except.ok.inj ok, walked⟩ }⟩

/-! ### The image of the root of trust -/

/-- What follows a field belongs to the string in it unless the string ends in the field or right
behind it. -/
theorem takeWhile_append_eq_iff (first : Bytes) (byte : BitVec 8) (rest : Bytes) :
    ((first ++ byte :: rest).takeWhile fun byte => byte != 0) =
        (first.takeWhile fun byte => byte != 0) ↔ 0 ∈ first ∨ byte = 0 := by
  induction first with
  | nil =>
    rw [nil_append, takeWhile_cons]
    by_cases zero : byte = 0
    · rw [zero]
      exact iff_of_true rfl (.inr rfl)
    · rw [if_pos (bne_iff_ne.mpr zero)]
      exact iff_of_false (cons_ne_nil _ _) fun no => no.elim not_mem_nil zero
  | cons head tail hypothesis =>
    rw [cons_append, takeWhile_cons, takeWhile_cons]
    by_cases zero : head = 0
    · rw [zero]
      exact iff_of_true rfl (.inl mem_cons_self)
    · rw [if_pos (bne_iff_ne.mpr zero), if_pos (bne_iff_ne.mpr zero), cons_inj_right,
        hypothesis, mem_cons, or_iff_right (fun same => zero (Eq.symm same))]

/-- The name of a descriptor ends in its field, or right behind it. -/
theorem nameOf_eq_partition_iff {desc : RvtPubkDesc} (long : 64 < desc.bytes.length) :
    nameOf machine desc = desc.partition ↔ 0 ∈ desc.name ∨ field desc.bytes 64 1 = 0 := by
  have split : desc.bytes ++ machine.stack =
      desc.name ++ desc.bytes[64] :: (desc.bytes.drop 65 ++ machine.stack) := by
    unfold RvtPubkDesc.name
    rw [← cons_append, ← drop_eq_getElem_cons, ← append_assoc, take_append_drop]
  have behind : field desc.bytes 64 1 = desc.bytes[64].toNat := by
    unfold field
    rw [drop_eq_getElem_cons long, take_succ_cons, take_zero, Bytes.toNat,
      Bytes.toNat, Nat.add_zero]
  unfold nameOf RvtPubkDesc.partition
  rw [split, takeWhile_append_eq_iff, behind]
  refine or_congr_right ⟨fun zero => zero ▸ rfl, fun zero => BitVec.eq_of_toNat_eq zero⟩

theorem imageDesc_length {image : Bytes} {nodes place : Nat}
    (room : rvtHeaderSize + nodes * rvtPubkDescSize ≤ image.length) (below : place < nodes) :
    (imageDesc image place).bytes.length = rvtPubkDescSize := by
  have step : (place + 1) * rvtPubkDescSize ≤ nodes * rvtPubkDescSize :=
    Nat.mul_le_mul_right _ below
  rw [Nat.succ_mul] at step
  unfold imageDesc
  rw [length_take, length_drop]
  omega

theorem descriptorAt_eq {image : Buffer} {nodes place : Nat}
    (room : rvtHeaderSize + nodes * rvtPubkDescSize ≤ image.bytes.length) (below : place < nodes) :
    descriptorAt (image.memory machine) (image.addr + rvtHeaderSize + place * rvtPubkDescSize) =
      imageDesc image.bytes place := by
  have step : (place + 1) * rvtPubkDescSize ≤ nodes * rvtPubkDescSize :=
    Nat.mul_le_mul_right _ below
  rw [Nat.succ_mul] at step
  have inside : Area.Inside
      ⟨image.addr + rvtHeaderSize + place * rvtPubkDescSize, rvtPubkDescSize⟩ image.buf := by
    unfold Area.Inside Area.end_
    dsimp only [Buffer.buf]
    omega
  have offset : image.addr + rvtHeaderSize + place * rvtPubkDescSize - image.addr =
      rvtHeaderSize + place * rvtPubkDescSize := by omega
  unfold descriptorAt imageDesc
  rw [Buffer.bytes_memory inside]
  rw [offset]

theorem verityNum_eq {image : Buffer} (long : rvtHeaderSize ≤ image.bytes.length) :
    verityNum (image.memory machine) image.buf = nodesNum image.bytes := by
  have inside : Area.Inside ⟨image.addr, rvtHeaderSize⟩ image.buf := by
    unfold Area.Inside Area.end_
    dsimp only [Buffer.buf]
    omega
  unfold verityNum nodesNum
  dsimp only [Buffer.buf]
  rw [Buffer.bytes_memory inside]
  dsimp only
  rw [Nat.sub_self, drop_zero, field_take (by decide)]

theorem keyBytes_eq {image : Buffer} {offset length : Nat}
    (real : image.buf.end_ < 2 ^ machine.bits) (room : offset + length ≤ image.bytes.length) :
    Area.bytes (image.memory machine) ⟨(image.addr + offset) % 2 ^ machine.bits, length⟩ =
      (image.bytes.drop offset).take length := by
  unfold Area.end_ at real
  dsimp only [Buffer.buf] at real
  rw [Nat.mod_eq_of_lt (by omega)]
  have inside : Area.Inside ⟨image.addr + offset, length⟩ image.buf := by
    unfold Area.Inside Area.end_
    dsimp only [Buffer.buf]
    omega
  rw [Buffer.bytes_memory inside]
  rw [Nat.add_sub_cancel_left]

/-! ### Soundness -/

theorem hvbNeedVerifyHash_iff {rvtPtn : Name} {hashPtnList : List Name} :
    hvbNeedVerifyHash (hashPtnListAddRvt hashPtnList rvtPtn) ptn = true ↔
      ptn ∈ hashPtnList ∨ ptn = rvtPtn := by
  have any_iff : ∀ (names : List Name) (name : Name),
      (names.any fun other => other == name) = true ↔ name ∈ names := fun names name => by
    rw [any_eq_true]
    exact ⟨fun ⟨other, member, same⟩ => beq_iff_eq.mp same ▸ member,
      fun member => ⟨name, member, beq_iff_eq.mpr rfl⟩⟩
  unfold hvbNeedVerifyHash hashPtnListAddRvt
  rw [any_iff]
  by_cases listed : rvtPtn ∈ hashPtnList
  · rw [if_pos ((any_iff _ _).mpr listed)]
    exact ⟨.inl, fun either => either.elim id fun same => same ▸ listed⟩
  · rw [if_neg fun no => listed ((any_iff _ _).mp no), mem_append, mem_singleton]

section

variable {rvtPtn : Name} {hashPtnList : List Name} {vd : VerifiedData} {root : CertData}
  {image : Buffer}

/-- When the descriptors lie in the image, the certificates that are loaded are that of the root of
trust and one for each descriptor. -/
theorem Accepted.certs (fits : machine.Fits ops)
    (accepted : Accepted machine ops rvtPtn ptnList vd root image)
    (room : rvtHeaderSize + nodesNum image.bytes * rvtPubkDescSize ≤ image.bytes.length) :
    Kept machine ops ptnList vd ∧ ∃ added, vd.certs = root :: added ∧
      added.length = nodesNum image.bytes ∧ ∀ place < nodesNum image.bytes,
        ∃ loaded, added[place]? = some loaded ∧
          LoadedFor machine ops (image.memory machine) image.buf (imageDesc image.bytes place)
            loaded := by
  obtain ⟨before, after, certs, kept, rfl, walked⟩ := accepted.walked
  have real := accepted.real
  obtain ⟨nodes, isNodes, walked⟩ := Reading.result_bind.mp walked
  obtain ⟨-, long, -, rfl⟩ := hvbRvtHeadParser_eq_ok.mp isNodes
  obtain ⟨descs, isDescs, walked⟩ := Reading.result_bind.mp walked
  obtain rfl := Except.ok.inj
    ((hvbRvtGetPubkDesc_eq fits.narrow real accepted.some_ long).symm.trans isDescs)
  rw [verityNum_eq long] at walked
  have end_ : image.addr + rvtHeaderSize + nodesNum image.bytes * rvtPubkDescSize <
      2 ^ machine.bits := by
    unfold Area.end_ at real
    dsimp only [Buffer.buf] at real
    omega
  obtain ⟨keptAfter, added, all, length, each⟩ := walkNodes_ok fits accepted.some_ end_ walked kept
  refine ⟨keptAfter, added, ?_, length, fun place below => ?_⟩
  · rw [all, certs]
    rfl
  · have loadedFor := each place below
    rw [descriptorAt_eq room below] at loadedFor
    exact loadedFor

theorem InRange.of_sound (fits : machine.Fits ops)
    (accepted : Accepted machine ops rvtPtn ptnList vd root image)
    (sound : Sound machine ops rvtPtn hashPtnList vd) :
    InRange machine ops rvtPtn hashPtnList image.bytes := by
  obtain ⟨room, nodes⟩ := sound.nodes image.bytes accepted.read
  obtain ⟨kept, added, certs, length, each⟩ := accepted.certs fits room
  have described : ∀ place < nodesNum image.bytes, ∀ loaded, added[place]? = some loaded →
      NodeVerified machine ops image.bytes (imageDesc image.bytes place) loaded :=
    fun place below loaded isLoaded => by
      obtain ⟨other, isOther, verified⟩ := nodes place below
      rw [certs, List.getElem?_cons_succ, isLoaded] at isOther
      exact some.inj isOther ▸ verified
  refine ⟨room, fun place below => ?_, fun place below => ?_,
    fun ptn member cert stored isType => ?_, fun place below noRoot noNode stored isStored => ?_⟩
  · obtain ⟨loaded, isLoaded, isName, -⟩ := each place below
    have long : 64 < (imageDesc image.bytes place).bytes.length := by
      rw [imageDesc_length room below]
      decide
    exact (nameOf_eq_partition_iff long).mp
      (isName.symm.trans (described place below loaded isLoaded).1)
  · obtain ⟨loaded, isLoaded, -⟩ := each place below
    exact (described place below loaded isLoaded).2.1
  · obtain ⟨loaded, isMember, rfl⟩ := sound.requested ptn member cert stored isType
    rw [certs, mem_cons] at isMember
    rcases isMember with rfl | isMember
    · exact .inl accepted.isPtn
    obtain ⟨place, isPlace⟩ := mem_iff_getElem?.mp isMember
    have below : place < nodesNum image.bytes := length ▸ (List.getElem?_eq_some_iff.mp isPlace).1
    exact .inr ⟨place, below, (described place below loaded isPlace).1.symm⟩
  · rcases kept.indexes place with ⟨-, garbage⟩ | ⟨⟨loaded, isMember, isPlace⟩, fresh⟩
    · exact garbage ▸ sound.exported place below stored isStored
    obtain ⟨cert, checked⟩ := kept.certs loaded isMember
    have isCert := checked.parsed.stored
    rw [certs, mem_cons] at isMember
    rcases isMember with rfl | isMember
    · exact absurd isPlace (noRoot _ (accepted.isPtn ▸ isCert))
    obtain ⟨node, isNode⟩ := mem_iff_getElem?.mp isMember
    have isBelow : node < nodesNum image.bytes := length ▸ (List.getElem?_eq_some_iff.mp isNode).1
    have isPtn := (described node isBelow loaded isNode).1
    exact absurd isPlace (noNode node isBelow _ (isPtn ▸ isCert))

theorem InRange.sound (fits : machine.Fits ops)
    (accepted : Accepted machine ops rvtPtn (hashPtnListAddRvt hashPtnList rvtPtn) vd root image)
    (range : InRange machine ops rvtPtn hashPtnList image.bytes) :
    Sound machine ops rvtPtn hashPtnList vd := by
  obtain ⟨kept, added, certs, length, each⟩ := accepted.certs fits range.room
  have described : ∀ place < nodesNum image.bytes, ∃ loaded, added[place]? = some loaded ∧
      NodeVerified machine ops image.bytes (imageDesc image.bytes place) loaded :=
    fun place below => by
      obtain ⟨loaded, isLoaded, isName, cert, parsed, isKey⟩ := each place below
      have long : 64 < (imageDesc image.bytes place).bytes.length := by
        rw [imageDesc_length range.room below]
        decide
      have isPartition := (@nameOf_eq_partition_iff machine _ long).mpr (range.names place below)
      have inside := range.keys place below
      exact ⟨loaded, isLoaded, isName.trans isPartition, inside, cert, parsed,
        isKey.trans (keyBytes_eq accepted.real inside)⟩
  have isRoot : vd.certs[0]? = some root := by rw [certs, List.getElem?_cons_zero]
  have node : ∀ place loaded, added[place]? = some loaded → loaded ∈ vd.certs :=
    fun place loaded isLoaded => by
      rw [certs]
      exact mem_cons_of_mem _ (mem_of_getElem? isLoaded)
  refine ⟨?_, fun loaded member => ?_, fun other isOther => ?_,
    fun ptn member cert stored isType => ?_, fun place below stored isStored => ?_⟩
  · obtain ⟨cert, parsed, trusted⟩ := accepted.trusted
    exact ⟨root, cert, isRoot, accepted.isPtn, parsed, trusted⟩
  · obtain ⟨cert, checked⟩ := kept.certs loaded member
    exact ⟨cert, checked.parsed, checked.signed, checked.fresh,
      fun wanted => checked.hashed (hvbNeedVerifyHash_iff.mpr wanted)⟩
  · rw [accepted.read] at isOther
    obtain rfl := some.inj isOther
    refine ⟨range.room, fun place below => ?_⟩
    obtain ⟨loaded, isLoaded, verified⟩ := described place below
    refine ⟨loaded, ?_, verified⟩
    rw [certs, List.getElem?_cons_succ, isLoaded]
  · rcases range.requested ptn member cert stored isType with rfl | ⟨place, below, rfl⟩
    · exact ⟨root, mem_of_getElem? isRoot, accepted.isPtn⟩
    · obtain ⟨loaded, isLoaded, verified⟩ := described place below
      exact ⟨loaded, node place loaded isLoaded, verified.1⟩
  · rcases kept.indexes place with ⟨none_, garbage⟩ | ⟨-, fresh⟩
    · rw [garbage]
      refine range.locations place below (fun cert isCert => ?_)
        (fun index isBelow cert isCert => ?_) stored isStored
      · obtain ⟨_, checked⟩ := kept.certs root (mem_of_getElem? isRoot)
        have same := checked.parsed.stored
        rw [accepted.isPtn, isCert] at same
        exact some.inj same ▸ none_ root (mem_of_getElem? isRoot)
      · obtain ⟨loaded, isLoaded, verified⟩ := described index isBelow
        have isMember := node index loaded isLoaded
        obtain ⟨_, checked⟩ := kept.certs loaded isMember
        have same := checked.parsed.stored
        rw [verified.1, isCert] at same
        exact some.inj same ▸ none_ loaded isMember
    · exact fresh stored isStored

end

end

theorem out_of_error {machine : Machine} {ops : Option HvbOps} {rvtPtn : Option Name}
    {hashPtnList : List Name} {wanted : Bool} {result : ChainResult} {errno : HvbErrno}
    (returned : hvbChainVerify machine ops rvtPtn hashPtnList wanted = some result)
    (failed : result.ret = .error errno) : result.out = none := by
  unfold hvbChainVerify at returned
  split at returned
  · split at returned
    · obtain rfl := some.inj returned
      rfl
    obtain ⟨found, -, rfl⟩ := map_eq_some_iff.mp returned
    cases found with
    | none => rfl
    | some image =>
      dsimp only at failed ⊢
      split at failed
      · rfl
      · rfl
      · cases failed
  · obtain rfl := some.inj returned
    rfl

/-- After an error nothing is handed out, and what is accepted is all that it should be exactly when
the image of the root of trust, the requested partitions and the rollback locations are in range. -/
theorem chain_sound_iff (machine : Machine) (ops : HvbOps) (fits : machine.Fits ops)
    (rvtPtn : Name) (hashPtnList : List Name) (wanted : Bool) :
    (∀ (ops : Option HvbOps) (rvtPtn : Option Name) (result : ChainResult) (errno : HvbErrno),
      hvbChainVerify machine ops rvtPtn hashPtnList wanted = some result →
        result.ret = .error errno → result.out = none) ∧
      ∀ (result : ChainResult) (vd : VerifiedData),
        hvbChainVerify machine (some ops) (some rvtPtn) hashPtnList wanted = some result →
          result.ret = .ok vd →
            (Sound machine ops rvtPtn hashPtnList vd ↔ ∃ image, rvtImage ops rvtPtn = some image ∧
                InRange machine ops rvtPtn hashPtnList image) := by
  refine ⟨fun ops rvtPtn result errno => out_of_error, fun result vd returned ok => ?_⟩
  obtain ⟨root, image, accepted⟩ := hvbChainVerify_ok fits returned ok
  refine ⟨fun sound => ⟨image.bytes, accepted.read, .of_sound fits accepted sound⟩,
    fun ⟨other, isOther, range⟩ => ?_⟩
  rw [accepted.read] at isOther
  obtain rfl := some.inj isOther
  exact range.sound fits accepted

/-- A footer with a certificate of 400 bytes at 696. -/
def sampleFooter : Bytes :=
  [0x48#8, 0x56#8, 0x42#8] ++ List.replicate 5 0#8 ++ [0xb8#8, 0x02#8] ++ List.replicate 6 0#8 ++
    [0x90#8, 0x01#8] ++ List.replicate 6 0#8 ++ [0xb8#8, 0x02#8] ++ List.replicate 8 0#8 ++
      [0x01#8] ++ List.replicate 69 0#8

/-- A certificate of the hash type for an image of 696 bytes, with a key of sixteen zeros. -/
def sampleCert : Bytes :=
  List.replicate 48 0#8 ++ [0xb8#8, 0x02#8] ++ List.replicate 94 0#8 ++ [0x01#8] ++
    List.replicate 31 0#8 ++ [0x20#8] ++ List.replicate 119 0#8 ++ [0x10#8] ++
      List.replicate 103 0#8

/-- An image with one descriptor, whose key is the sixteen zeros behind it. -/
def sampleImage : Bytes :=
  List.replicate 4 0#8 ++ [0x01#8] ++ List.replicate 67 0#8 ++ [0x62#8] ++
    List.replicate 63 0#8 ++ [0xa8#8, 0x02#8] ++ List.replicate 6 0#8 ++ [0x10#8] ++
      List.replicate 551 0#8

/-- Partitions that are all alike, with a rollback index that is stored at location 1 or not. -/
def sampleOps (recent : Bool) : HvbOps where
  readPartition _ offset _ :=
    if offset = 0 then some sampleImage else if offset = 696 then some sampleCert
    else some sampleFooter
  validRvtKey _ := some true
  readRollback place := some (if recent ∧ place = 1 then 5 else 0)

def sampleMachine : Machine where
  bits := 64
  malloc count size :=
    if count < 1024 ∧ size < 65536 then some (65536 * (count + 1)) else none
  garbage _ := 0
  outside _ := 0#8
  stack := []
  sha256 _ := List.replicate 32 0#8
  rsaVerifyPss _ _ _ _ := true
  creatCmdline := .ok ()

theorem sample_fits (recent : Bool) : sampleMachine.Fits (sampleOps recent) where
  wide := by decide
  narrow := by decide
  real := fun count size addr granted => by
    dsimp only [sampleMachine] at granted
    split at granted
    · obtain rfl := some.inj granted
      dsimp only [sampleMachine]
      omega
    · cases granted
  short := fun ptn offset size bytes read => by
    dsimp only [sampleOps] at read
    split at read
    · obtain rfl := some.inj read
      decide +kernel
    split at read
    · obtain rfl := some.inj read
      decide +kernel
    · obtain rfl := some.inj read
      decide +kernel

theorem sample_accepted (recent : Bool) : ∃ result vd,
    hvbChainVerify sampleMachine (some (sampleOps recent)) (some [0x72#8]) [] true =
      some result ∧ result.ret = .ok vd ∧ vd.rollbackIndexes 1 = 0 := by
  have index : ∀ recent, ((hvbChainVerify sampleMachine (some (sampleOps recent))
      (some [0x72#8]) [] true).bind fun result => result.ret.toOption).map
        (fun vd => vd.rollbackIndexes 1) = some 0 := by
    decide +kernel
  obtain ⟨vd, isVd, zero⟩ := map_eq_some_iff.mp (index recent)
  obtain ⟨result, returned, isOk⟩ := Option.bind_eq_some_iff.mp isVd
  refine ⟨result, vd, returned, ?_, zero⟩
  cases ret : result.ret with
  | error errno =>
    rw [ret] at isOk
    cases isOk
  | ok other =>
    rw [ret] at isOk
    exact congrArg Except.ok (some.inj isOk)

theorem chain_sound_iff_sample : ∃ result vd,
    hvbChainVerify sampleMachine (some (sampleOps false)) (some [0x72#8]) [] true = some result ∧
      result.ret = .ok vd ∧ Sound sampleMachine (sampleOps false) [0x72#8] [] vd := by
  obtain ⟨result, vd, returned, ok, -⟩ := sample_accepted false
  refine ⟨result, vd, returned, ok, ((chain_sound_iff sampleMachine (sampleOps false)
    (sample_fits false) [0x72#8] [] true).2 result vd returned ok).mpr
      ⟨sampleImage, by decide +kernel, ?_⟩⟩
  have one : nodesNum sampleImage = 1 := by decide +kernel
  refine ⟨by decide +kernel, fun place below => ?_, fun place below => ?_, fun _ no => ?_,
    fun place _ _ _ stored isStored => ?_⟩
  · obtain rfl : place = 0 := by omega
    decide +kernel
  · obtain rfl : place = 0 := by omega
    decide +kernel
  · cases no
  · exact some.inj isStored ▸ Nat.zero_le _

/-- The index that is exported at a location without a certificate may be below the stored one. -/
theorem index_not_written :
    ¬∀ (machine : Machine) (ops : HvbOps) (rvtPtn : Name) (hashPtnList : List Name)
      (result : ChainResult) (vd : VerifiedData), machine.Fits ops →
        hvbChainVerify machine (some ops) (some rvtPtn) hashPtnList true = some result →
          result.ret = .ok vd → Sound machine ops rvtPtn hashPtnList vd :=
  fun sound => by
    obtain ⟨result, vd, returned, ok, index⟩ := sample_accepted true
    have exported :=
      (sound _ _ _ _ result vd (sample_fits true) returned ok).exported 1 (by decide) 5 rfl
    omega

end TowerSafe.Hvb
