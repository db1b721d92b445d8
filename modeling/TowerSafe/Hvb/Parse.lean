/-
This file embeds the parsers of verified boot: those of the footer of a partition, of a certificate,
of the blob of a public key, and of the image of the root of trust with its descriptors. Each reads
inside its buffer. What they accept is what they should accept but for the keys of the image, the
place of a certificate, and sizes that wrap.
-/

import TowerSafe.Library.Reading

namespace TowerSafe.Hvb

open Library Library.Reading

/-! ### Buffers -/

abbrev HvbBuf := Area

/-- The bytes at the addresses. -/
abbrev Memory := Nat → BitVec 8

/-- The values of `enum hvb_errno` but for `HVB_OK`, in order. -/
inductive HvbErrno
  | oom
  | io
  | verifySign
  | verifyHash
  | rollbackIndex
  | publicKeyRejected
  | invalidCertFormat
  | invalidFooterFormat
  | unsupportedVersion
  | invalidArgument
  deriving DecidableEq

def field (bytes : Bytes) (offset width : Nat) : Nat :=
  Bytes.toNat ((bytes.drop offset).take width)

theorem field_take {bytes : Bytes} {offset width size : Nat} (inside : offset + width ≤ size) :
    field (bytes.take size) offset width = field bytes offset width := by
  unfold field
  rw [List.drop_take, List.take_take, Nat.min_eq_left (by omega)]

/-- What `_decode_octets` leaves in its arguments. -/
structure Decoded where
  buf : HvbBuf
  p : Nat
  deriving DecidableEq

theorem field_lt (bytes : Bytes) (offset width : Nat) : field bytes offset width < 256 ^ width :=
  Nat.lt_of_lt_of_le (Bytes.toNat_lt _)
    (Nat.pow_le_pow_right (by decide) (List.length_take_le width _))

/-- `_decode_octets`, with the number of bits of an address. -/
def decodeOctets (bits size p end_ : Nat) : Option Decoded :=
  if end_ < (p + size) % 2 ^ bits ∨ (p + size) % 2 ^ bits < p then none
  else some ⟨⟨p, size⟩, (p + size) % 2 ^ bits⟩

/-! ### The certificate -/

/-- The fields of `struct hvb_sign_info` that are used. -/
structure HvbSignInfo where
  algorithm : Nat
  pubk : HvbBuf
  sign : HvbBuf
  deriving DecidableEq

/-- The fields of `struct hvb_cert` that are used, with those of `struct hash_payload`. -/
structure HvbCert where
  imageOriginalLen : Nat
  rollbackLocation : Nat
  rollbackIndex : Nat
  verityType : Nat
  hashAlgo : Nat
  saltSize : Nat
  digestSize : Nat
  salt : Nat
  digest : Nat
  signatureInfo : HvbSignInfo
  deriving DecidableEq

/-- `hvb_offsetof(struct hvb_cert, hash_payload)`. -/
def certHeaderSize : Nat := 240

/-- `hvb_offsetof(struct hvb_sign_info, pubk)`. -/
def signInfoConstSize : Nat := 112

/-- `struct hash_payload`, and the place behind it. -/
structure HashPayload where
  salt : Nat
  digest : Nat
  p : Nat
  deriving DecidableEq

def hvbCertPayloadParser (bits saltSize digestSize p end_ : Nat) :
    Reading HvbErrno HashPayload := do
  let salt ← .ofOption .invalidCertFormat (decodeOctets bits (saltSize % 2 ^ bits) p end_)
  let digest ← .ofOption .invalidCertFormat (decodeOctets bits (digestSize % 2 ^ bits) salt.p end_)
  pure ⟨salt.buf.addr, digest.buf.addr, digest.p⟩

def hvbCertSignatureParser (bits : Nat) (memory : Memory) (p end_ : Nat) :
    Reading HvbErrno HvbSignInfo := do
  let info ← .ofOption .invalidCertFormat (decodeOctets bits signInfoConstSize p end_)
  let bytes ← .read memory info.buf
  let pubk ← .ofOption .invalidCertFormat
    (decodeOctets bits (field bytes 24 8 % 2 ^ bits) info.p end_)
  let sign ← .ofOption .invalidCertFormat
    (decodeOctets bits (field bytes 40 8 % 2 ^ bits) pubk.p end_)
  pure ⟨field bytes 8 4, pubk.buf, sign.buf⟩

def hvbCertParser (bits : Nat) (memory : Memory) (certBuf : HvbBuf) :
    Reading HvbErrno HvbCert := do
  let end_ := (certBuf.addr + certBuf.size) % 2 ^ bits
  let header ← .ofOption .invalidCertFormat (decodeOctets bits certHeaderSize certBuf.addr end_)
  let bytes ← .read memory header.buf
  let payload ← hvbCertPayloadParser bits (field bytes 160 8) (field bytes 176 8) header.p end_
  let signatureInfo ← hvbCertSignatureParser bits memory payload.p end_
  pure
    { imageOriginalLen := field bytes 48 8
      rollbackLocation := field bytes 128 8
      rollbackIndex := field bytes 136 8
      verityType := field bytes 144 4
      hashAlgo := field bytes 148 4
      saltSize := field bytes 160 8
      digestSize := field bytes 176 8
      salt := payload.salt
      digest := payload.digest
      signatureInfo := signatureInfo }

/-- The fields of `struct hvb_rsa_pubkey` but for the exponent, which is constant. -/
structure HvbRsaPubkey where
  width : Nat
  n0 : Nat
  mod : HvbBuf
  rr : HvbBuf
  deriving DecidableEq

/-- `hvb_be64toh` of `hvb_buftouint64`. -/
def be64 (bytes : Bytes) : Nat := Bytes.toNat bytes.reverse

/-- `hvb_cert_pubk_parser`. What it returns when it fails is 1, the value of `HVB_ERROR_OOM`. -/
def hvbCertPubkParser (bits : Nat) (memory : Memory) (rawPubk : HvbBuf) :
    Reading HvbErrno HvbRsaPubkey := do
  let end_ := (rawPubk.addr + rawPubk.size) % 2 ^ bits
  let width ← .ofOption .oom (decodeOctets bits 8 rawPubk.addr end_)
  let widthBytes ← .read memory width.buf
  let n0 ← .ofOption .oom (decodeOctets bits 8 width.p end_)
  let n0Bytes ← .read memory n0.buf
  let mod ← .ofOption .oom (decodeOctets bits (be64 widthBytes / 8 % 2 ^ bits) n0.p end_)
  let rr ← .ofOption .oom (decodeOctets bits (be64 widthBytes / 8 % 2 ^ bits) mod.p end_)
  pure ⟨be64 widthBytes, be64 n0Bytes, mod.buf, rr.buf⟩

/-! ### The footer -/

/-- The fields of `struct hvb_footer` that are used. -/
structure HvbFooter where
  certOffset : Nat
  certSize : Nat
  imageSize : Nat
  partitionSize : Nat
  deriving DecidableEq

/-- `sizeof(struct hvb_footer)`, and `HVB_FOOTER_SIZE`. -/
def hvbFooterSize : Nat := 104

/-- `HVB_FOOTER_MAGIC`, with its terminator. -/
def hvbFooterMagic : Bytes := [0x48#8, 0x56#8, 0x42#8, 0#8]

def HvbFooter.ofBytes (bytes : Bytes) : HvbFooter :=
  ⟨field bytes 8 8, field bytes 16 8, field bytes 24 8, field bytes 32 8⟩

/-- The sum of the sizes in a footer, in the type `uint64_t`. -/
def HvbFooter.size (footer : HvbFooter) (footerBuf : HvbBuf) : Nat :=
  (footer.imageSize + footer.certSize + footerBuf.size) % 2 ^ 64

def footerParser (memory : Memory) (footerBuf : HvbBuf) : Reading HvbErrno HvbFooter :=
  if footerBuf.size < hvbFooterSize then .fail .invalidFooterFormat
  else do
    let bytes ← .read memory ⟨footerBuf.addr, hvbFooterSize⟩
    let footer := HvbFooter.ofBytes bytes
    if bytes.take 4 ≠ hvbFooterMagic then .fail .invalidFooterFormat
    else if footer.size footerBuf < footer.imageSize ∨
        footer.partitionSize < footer.size footerBuf then .fail .invalidFooterFormat
    else pure footer

/-! ### The root of trust -/

/-- `sizeof(struct rvt_image_header)`. -/
def rvtHeaderSize : Nat := 72

/-- `sizeof(struct rvt_pubk_desc)`. -/
def rvtPubkDescSize : Nat := 608

/-- `sizeof(struct hvb_buf)`. -/
def sizeofHvbBuf : Nat := 16

/-- `struct rvt_pubk_desc`, which is packed, as its bytes. -/
structure RvtPubkDesc where
  bytes : Bytes
  deriving DecidableEq

namespace RvtPubkDesc

/-- The field `name`. -/
def name (desc : RvtPubkDesc) : Bytes := desc.bytes.take 64

/-- The field `pubkey_offset`. -/
def pubkeyOffset (desc : RvtPubkDesc) : Nat := field desc.bytes 64 8

/-- The field `pubkey_len`. -/
def pubkeyLen (desc : RvtPubkDesc) : Nat := field desc.bytes 72 8

end RvtPubkDesc

/-- The size that the header of an image with some descriptors stands for, in the type `size_t`. -/
def rvtRealSize (bits verityNum : Nat) : Nat :=
  (rvtHeaderSize + verityNum * rvtPubkDescSize % 2 ^ bits) % 2 ^ bits

/-- `hvb_rvt_head_parser`: the number of descriptors. -/
def hvbRvtHeadParser (bits : Nat) (memory : Memory) (rvt : HvbBuf) : Reading HvbErrno Nat :=
  if rvt.addr = 0 then .fail .invalidArgument
  else if rvt.size < rvtHeaderSize then .fail .invalidArgument
  else do
    let header ← .read memory ⟨rvt.addr, rvtHeaderSize⟩
    let verityNum := field header 4 4
    if rvt.size < rvtRealSize bits verityNum ∨ rvtRealSize bits verityNum < rvtHeaderSize then
      .fail .invalidArgument
    else pure verityNum

def hvbRvtGetPubkDesc (bits : Nat) (rvt : HvbBuf) : Reading HvbErrno HvbBuf :=
  if rvt.addr = 0 then .fail .invalidArgument
  else if rvt.size < sizeofHvbBuf then .fail .invalidArgument
  else
    let size := (rvt.size + 2 ^ 64 - rvtHeaderSize) % 2 ^ 64
    if rvt.size < size then .fail .invalidArgument
    else pure ⟨(rvt.addr + rvtHeaderSize) % 2 ^ bits, size⟩

def hvbRvtPubkDescParser (memory : Memory) (pubk : HvbBuf) : Reading HvbErrno RvtPubkDesc :=
  if pubk.addr = 0 then .fail .invalidArgument
  else if pubk.size < rvtPubkDescSize then .fail .invalidArgument
  else do
    let bytes ← .read memory ⟨pubk.addr, rvtPubkDescSize⟩
    pure ⟨bytes⟩

def hvbRvtGetPubkBuf (bits : Nat) (rvt : HvbBuf) (desc : RvtPubkDesc) : Reading HvbErrno HvbBuf :=
  if rvt.addr = 0 then .fail .invalidArgument
  else pure ⟨(rvt.addr + desc.pubkeyOffset) % 2 ^ bits, desc.pubkeyLen⟩

/-- The loop of `hvb_walk_verify_nodes`, with what is done with a descriptor and its key: the
partition is verified and the key is compared. -/
def walkNodes {State : Type} (bits : Nat) (memory : Memory) (rvt : HvbBuf)
    (verify : State → RvtPubkDesc → HvbBuf → Reading HvbErrno State) :
    Nat → HvbBuf → State → Reading HvbErrno State
  | 0, _, state => pure state
  | nodes + 1, pubkDescs, state => do
      let desc ← hvbRvtPubkDescParser memory pubkDescs
      let expectedPubk ← hvbRvtGetPubkBuf bits rvt desc
      let state ← verify state desc expectedPubk
      walkNodes bits memory rvt verify nodes
        ⟨(pubkDescs.addr + rvtPubkDescSize) % 2 ^ bits, pubkDescs.size⟩ state

def hvbWalkVerifyNodes {State : Type} (bits : Nat) (memory : Memory) (rvt : HvbBuf)
    (verify : State → RvtPubkDesc → HvbBuf → Reading HvbErrno State) (state : State) :
    Reading HvbErrno State := do
  let nodesNum ← hvbRvtHeadParser bits memory rvt
  let pubkDescs ← hvbRvtGetPubkDesc bits rvt
  walkNodes bits memory rvt verify nodesNum pubkDescs state

/-! ### What the parsers are to do -/

/-- The parts of a certificate, as they were decoded. -/
def HvbCert.parts (bits : Nat) (certBuf : HvbBuf) (cert : HvbCert) : List HvbBuf :=
  [⟨certBuf.addr, certHeaderSize⟩, ⟨cert.salt, cert.saltSize % 2 ^ bits⟩,
    ⟨cert.digest, cert.digestSize % 2 ^ bits⟩,
    ⟨cert.digest + cert.digestSize % 2 ^ bits, signInfoConstSize⟩, cert.signatureInfo.pubk,
    cert.signatureInfo.sign]

/-- The parts of a certificate follow one another in the buffer. -/
structure HvbCert.Laid (bits : Nat) (certBuf : HvbBuf) (cert : HvbCert) : Prop where
  consecutive : Area.Consecutive certBuf.addr (cert.parts bits certBuf)
  inside : ∀ part ∈ cert.parts bits certBuf, part.Inside certBuf

/-- The areas of a footer fit the size of the partition that it states. -/
structure HvbFooter.Fits (footerBuf : HvbBuf) (footer : HvbFooter) : Prop where
  sizes : footer.imageSize + footer.certSize + footerBuf.size ≤ footer.partitionSize
  cert : footer.certOffset + footer.certSize ≤ footer.partitionSize

/-- The parsers read inside their buffers, whatever stands there; what is taken out of the image of
the root of trust lies in it, whatever is done with it; and certificates and footers that are
accepted are as they should be. -/
structure Contained (bits : Nat) (memory : Memory) (footerBuf certBuf rawPubk rvt : HvbBuf) :
    Prop where
  footerReads : (footerParser memory footerBuf).Within footerBuf
  certReads : (hvbCertParser bits memory certBuf).Within certBuf
  pubkReads : (hvbCertPubkParser bits memory rawPubk).Within rawPubk
  rvtReads : ∀ (State : Type) (verify : State → RvtPubkDesc → HvbBuf → Reading HvbErrno State)
    (state : State), (∀ state desc key, (verify state desc key).Within key) →
      (hvbWalkVerifyNodes bits memory rvt verify state).Within rvt
  certs : ∀ cert, (hvbCertParser bits memory certBuf).result = .ok cert → cert.Laid bits certBuf
  footers : ∀ footer, (footerParser memory footerBuf).result = .ok footer → footer.Fits footerBuf

def footerBytes (memory : Memory) (footerBuf : HvbBuf) : Bytes :=
  Area.bytes memory ⟨footerBuf.addr, hvbFooterSize⟩

/-- A footer is too short, without the magic or too large for its partition, or the size of the
certificate does not wrap and the certificate ends in the partition. -/
def FooterInRange (memory : Memory) (footerBuf : HvbBuf) : Prop :=
  let footer := HvbFooter.ofBytes (footerBytes memory footerBuf)
  footerBuf.size < hvbFooterSize ∨ (footerBytes memory footerBuf).take 4 ≠ hvbFooterMagic ∨
    footer.size footerBuf < footer.imageSize ∨ footer.partitionSize < footer.size footerBuf ∨
      footer.certSize + footerBuf.size < 2 ^ 64 ∧
        footer.certOffset + footer.certSize ≤ footer.partitionSize

/-- The number of descriptors that the header of an image states. -/
def verityNum (memory : Memory) (rvt : HvbBuf) : Nat :=
  field (Area.bytes memory ⟨rvt.addr, rvtHeaderSize⟩) 4 4

def descriptor (memory : Memory) (rvt : HvbBuf) (place : Nat) : RvtPubkDesc :=
  ⟨Area.bytes memory ⟨rvt.addr + rvtHeaderSize + place * rvtPubkDescSize, rvtPubkDescSize⟩⟩

/-- An image is too short for a descriptor or for those that it states, or their number does not
wrap and the key of each ends in the image. -/
def RvtInRange (bits : Nat) (memory : Memory) (rvt : HvbBuf) : Prop :=
  rvt.addr = 0 ∨ rvt.size < rvtHeaderSize + rvtPubkDescSize ∨
    rvt.size < rvtRealSize bits (verityNum memory rvt) ∨
    rvtRealSize bits (verityNum memory rvt) < rvtHeaderSize ∨
    rvtHeaderSize + verityNum memory rvt * rvtPubkDescSize ≤ rvt.size ∧
      ∀ place < verityNum memory rvt,
        (descriptor memory rvt place).pubkeyOffset % 2 ^ bits +
          (descriptor memory rvt place).pubkeyLen ≤ rvt.size

/-! ### Steps of the parsers -/

section

variable {bits size p end_ : Nat} {memory : Memory} {outer : HvbBuf}

theorem decodeOctets_eq_some {decoded : Decoded} (fits : size < 2 ^ bits) (place : p ≤ end_)
    (bound : end_ < 2 ^ bits) : decodeOctets bits size p end_ = some decoded ↔
      p + size ≤ end_ ∧ decoded = ⟨⟨p, size⟩, p + size⟩ := by
  unfold decodeOctets
  by_cases inside : p + size ≤ end_
  · rw [Nat.mod_eq_of_lt (Nat.lt_of_le_of_lt inside bound),
      if_neg (by omega), Option.some.injEq, eq_comm]
    exact (and_iff_right inside).symm
  refine iff_of_false (fun found => ?_) fun both => inside both.1
  rw [if_pos] at found
  · cases found
  · by_cases wraps : p + size < 2 ^ bits
    · rw [Nat.mod_eq_of_lt wraps]
      exact .inl (Nat.not_le.mp inside)
    · rw [Nat.mod_eq_sub_mod (Nat.not_lt.mp wraps), Nat.mod_eq_of_lt (by omega)]
      omega

theorem decoded_inside {decoded : Decoded} (fits : size < 2 ^ bits) (place : p ≤ end_)
    (bound : end_ < 2 ^ bits) (found : decodeOctets bits size p end_ = some decoded) :
    decoded.buf = ⟨p, size⟩ ∧ decoded.p = p + size ∧ decoded.p ≤ end_ := by
  obtain ⟨inside, rfl⟩ := (decodeOctets_eq_some fits place bound).mp found
  exact ⟨rfl, rfl, inside⟩

theorem cutOff_lt (bits number : Nat) : number % 2 ^ bits < 2 ^ bits :=
  Nat.mod_lt _ (Nat.two_pow_pos bits)

theorem inside_of_le (start : outer.addr ≤ p) (stop : p + size ≤ outer.end_) :
    Area.Inside ⟨p, size⟩ outer :=
  ⟨start, stop⟩

theorem hvbCertPayloadParser_result {saltSize digestSize : Nat} {payload : HashPayload}
    (place : p ≤ end_) (bound : end_ < 2 ^ bits)
    (result : (hvbCertPayloadParser bits saltSize digestSize p end_).result = .ok payload) :
    payload.salt = p ∧ payload.digest = p + saltSize % 2 ^ bits ∧
      payload.p = payload.digest + digestSize % 2 ^ bits ∧ payload.p ≤ end_ := by
  obtain ⟨salt, isSalt, result⟩ := result_bind.mp result
  obtain ⟨digest, isDigest, result⟩ := result_bind.mp result
  obtain ⟨bufSalt, nextSalt, insideSalt⟩ :=
    decoded_inside (cutOff_lt bits saltSize) place bound (result_ofOption.mp isSalt)
  obtain ⟨bufDigest, nextDigest, insideDigest⟩ :=
    decoded_inside (cutOff_lt bits digestSize) insideSalt bound (result_ofOption.mp isDigest)
  obtain rfl := result_pure.mp result
  rw [bufSalt, bufDigest]
  exact ⟨rfl, nextSalt, nextDigest, insideDigest⟩

theorem hvbCertPayloadParser_within {saltSize digestSize : Nat} :
    (hvbCertPayloadParser bits saltSize digestSize p end_).Within outer :=
  within_bind.mpr ⟨within_ofOption, fun _ _ =>
    within_bind.mpr ⟨within_ofOption, fun _ _ => within_pure⟩⟩

theorem hvbCertSignatureParser_result {info : HvbSignInfo} (wide : 32 ≤ bits) (place : p ≤ end_)
    (bound : end_ < 2 ^ bits)
    (result : (hvbCertSignatureParser bits memory p end_).result = .ok info) :
    info.pubk.addr = p + signInfoConstSize ∧ info.sign.addr = info.pubk.end_ ∧
      info.sign.end_ ≤ end_ := by
  have small : signInfoConstSize < 2 ^ bits :=
    Nat.lt_of_lt_of_le (by decide) (Nat.pow_le_pow_right (by decide) wide)
  obtain ⟨header, isHeader, result⟩ := result_bind.mp result
  obtain ⟨bytes, -, result⟩ := result_bind.mp result
  obtain ⟨pubk, isPubk, result⟩ := result_bind.mp result
  obtain ⟨sign, isSign, result⟩ := result_bind.mp result
  obtain ⟨-, nextHeader, insideHeader⟩ :=
    decoded_inside small place bound (result_ofOption.mp isHeader)
  obtain ⟨bufPubk, nextPubk, insidePubk⟩ :=
    decoded_inside (cutOff_lt bits _) insideHeader bound (result_ofOption.mp isPubk)
  obtain ⟨bufSign, nextSign, insideSign⟩ :=
    decoded_inside (cutOff_lt bits _) insidePubk bound (result_ofOption.mp isSign)
  obtain rfl := result_pure.mp result
  rw [bufPubk, bufSign]
  exact ⟨nextHeader, nextPubk, show pubk.p + _ ≤ end_ from nextSign ▸ insideSign⟩

theorem hvbCertSignatureParser_within (wide : 32 ≤ bits) (place : p ≤ end_)
    (bound : end_ < 2 ^ bits) (start : outer.addr ≤ p) (stop : end_ ≤ outer.end_) :
    (hvbCertSignatureParser bits memory p end_).Within outer := by
  have small : signInfoConstSize < 2 ^ bits :=
    Nat.lt_of_lt_of_le (by decide) (Nat.pow_le_pow_right (by decide) wide)
  refine within_bind.mpr ⟨within_ofOption, fun header isHeader => within_bind.mpr ⟨?_, fun _ _ =>
    within_bind.mpr ⟨within_ofOption, fun _ _ => within_bind.mpr ⟨within_ofOption, fun _ _ =>
      within_pure⟩⟩⟩⟩
  obtain ⟨bufHeader, nextHeader, insideHeader⟩ :=
    decoded_inside small place bound (result_ofOption.mp isHeader)
  rw [within_read, bufHeader]
  exact inside_of_le start ((nextHeader ▸ insideHeader).trans stop)

end

/-! ### The certificate and the key -/

section

variable {bits : Nat} {memory : Memory} {certBuf rawPubk : HvbBuf}

section

variable (wide : 32 ≤ bits)
include wide

theorem hvbCertParser_within (real : certBuf.end_ < 2 ^ bits) :
    (hvbCertParser bits memory certBuf).Within certBuf := by
  have small : certHeaderSize < 2 ^ bits :=
    Nat.lt_of_lt_of_le (by decide) (Nat.pow_le_pow_right (by decide) wide)
  unfold hvbCertParser
  rw [Nat.mod_eq_of_lt (show certBuf.addr + certBuf.size < 2 ^ bits from real)]
  refine within_bind.mpr ⟨within_ofOption, fun header isHeader => ?_⟩
  obtain ⟨bufHeader, nextHeader, insideHeader⟩ :=
    decoded_inside small (Nat.le_add_right _ _) real (result_ofOption.mp isHeader)
  refine within_bind.mpr ⟨?_, fun bytes _ => within_bind.mpr ⟨hvbCertPayloadParser_within,
    fun payload isPayload => within_bind.mpr ⟨?_, fun _ _ => within_pure⟩⟩⟩
  · rw [within_read, bufHeader]
    exact inside_of_le (Nat.le_refl _) (nextHeader ▸ insideHeader)
  · obtain ⟨-, digest, next, inside⟩ := hvbCertPayloadParser_result insideHeader real isPayload
    refine hvbCertSignatureParser_within wide inside real ?_ (Nat.le_refl _)
    omega

theorem hvbCertParser_laid {cert : HvbCert} (real : certBuf.end_ < 2 ^ bits)
    (result : (hvbCertParser bits memory certBuf).result = .ok cert) : cert.Laid bits certBuf := by
  have small : certHeaderSize < 2 ^ bits :=
    Nat.lt_of_lt_of_le (by decide) (Nat.pow_le_pow_right (by decide) wide)
  unfold hvbCertParser at result
  rw [Nat.mod_eq_of_lt (show certBuf.addr + certBuf.size < 2 ^ bits from real)] at result
  obtain ⟨header, isHeader, result⟩ := result_bind.mp result
  obtain ⟨bytes, -, result⟩ := result_bind.mp result
  obtain ⟨payload, isPayload, result⟩ := result_bind.mp result
  obtain ⟨info, isInfo, result⟩ := result_bind.mp result
  obtain ⟨bufHeader, nextHeader, insideHeader⟩ :=
    decoded_inside small (Nat.le_add_right _ _) real (result_ofOption.mp isHeader)
  obtain ⟨salt, digest, next, inside⟩ := hvbCertPayloadParser_result insideHeader real isPayload
  obtain ⟨pubk, sign, insideSign⟩ := hvbCertSignatureParser_result wide inside real isInfo
  obtain rfl := result_pure.mp result
  have consecutive : Area.Consecutive certBuf.addr (HvbCert.parts bits certBuf
      ⟨field bytes 48 8, field bytes 128 8, field bytes 136 8, field bytes 144 4,
        field bytes 148 4, field bytes 160 8, field bytes 176 8, payload.salt, payload.digest,
        info⟩) :=
    ⟨rfl, salt.trans nextHeader, by rw [digest, ← salt]; rfl, rfl,
      by rw [pubk, next]; rfl, sign, trivial⟩
  refine ⟨consecutive, consecutive.inside (Nat.le_refl _) fun last isLast => ?_⟩
  obtain rfl := Option.some.inj isLast
  exact insideSign

theorem hvbCertParser_header {cert : HvbCert} (real : certBuf.end_ < 2 ^ bits)
    (result : (hvbCertParser bits memory certBuf).result = .ok cert) :
    Area.Inside ⟨certBuf.addr, certHeaderSize⟩ certBuf ∧
      cert.imageOriginalLen = field (Area.bytes memory ⟨certBuf.addr, certHeaderSize⟩) 48 8 ∧
        cert.rollbackLocation = field (Area.bytes memory ⟨certBuf.addr, certHeaderSize⟩) 128 8 ∧
          cert.verityType = field (Area.bytes memory ⟨certBuf.addr, certHeaderSize⟩) 144 4 := by
  have small : certHeaderSize < 2 ^ bits :=
    Nat.lt_of_lt_of_le (by decide) (Nat.pow_le_pow_right (by decide) wide)
  unfold hvbCertParser at result
  rw [Nat.mod_eq_of_lt (show certBuf.addr + certBuf.size < 2 ^ bits from real)] at result
  obtain ⟨header, isHeader, result⟩ := result_bind.mp result
  obtain ⟨bytes, isBytes, result⟩ := result_bind.mp result
  obtain ⟨payload, -, result⟩ := result_bind.mp result
  obtain ⟨info, -, result⟩ := result_bind.mp result
  obtain ⟨bufHeader, nextHeader, insideHeader⟩ :=
    decoded_inside small (Nat.le_add_right _ _) real (result_ofOption.mp isHeader)
  obtain rfl := Except.ok.inj isBytes
  obtain rfl := result_pure.mp result
  rw [bufHeader]
  exact ⟨inside_of_le (Nat.le_refl _) (nextHeader ▸ insideHeader), rfl, rfl, rfl⟩

theorem hvbCertPubkParser_inside {pubk : HvbRsaPubkey}
    (real : rawPubk.end_ < 2 ^ bits)
    (result : (hvbCertPubkParser bits memory rawPubk).result = .ok pubk) :
    pubk.mod.Inside rawPubk ∧ pubk.rr.Inside rawPubk := by
  have small : 8 < 2 ^ bits :=
    Nat.lt_of_lt_of_le (by decide) (Nat.pow_le_pow_right (by decide) wide)
  unfold hvbCertPubkParser at result
  rw [Nat.mod_eq_of_lt (show rawPubk.addr + rawPubk.size < 2 ^ bits from real)] at result
  obtain ⟨width, isWidth, result⟩ := result_bind.mp result
  obtain ⟨widthBytes, -, result⟩ := result_bind.mp result
  obtain ⟨n0, isN0, result⟩ := result_bind.mp result
  obtain ⟨n0Bytes, -, result⟩ := result_bind.mp result
  obtain ⟨mod, isMod, result⟩ := result_bind.mp result
  obtain ⟨rr, isRr, result⟩ := result_bind.mp result
  obtain ⟨-, nextWidth, insideWidth⟩ :=
    decoded_inside small (Nat.le_add_right _ _) real (result_ofOption.mp isWidth)
  obtain ⟨-, nextN0, insideN0⟩ := decoded_inside small insideWidth real (result_ofOption.mp isN0)
  obtain ⟨bufMod, nextMod, insideMod⟩ :=
    decoded_inside (cutOff_lt bits _) insideN0 real (result_ofOption.mp isMod)
  obtain ⟨bufRr, nextRr, insideRr⟩ :=
    decoded_inside (cutOff_lt bits _) insideMod real (result_ofOption.mp isRr)
  obtain rfl := result_pure.mp result
  rw [bufMod, bufRr]
  exact ⟨inside_of_le (by omega) (nextMod ▸ insideMod), inside_of_le (by omega) (nextRr ▸ insideRr)⟩

theorem hvbCertPubkParser_within (real : rawPubk.end_ < 2 ^ bits) :
    (hvbCertPubkParser bits memory rawPubk).Within rawPubk := by
  have small : 8 < 2 ^ bits :=
    Nat.lt_of_lt_of_le (by decide) (Nat.pow_le_pow_right (by decide) wide)
  unfold hvbCertPubkParser
  rw [Nat.mod_eq_of_lt (show rawPubk.addr + rawPubk.size < 2 ^ bits from real)]
  refine within_bind.mpr ⟨within_ofOption, fun width isWidth => ?_⟩
  obtain ⟨bufWidth, nextWidth, insideWidth⟩ :=
    decoded_inside small (Nat.le_add_right _ _) real (result_ofOption.mp isWidth)
  refine within_bind.mpr ⟨?_, fun _ _ => within_bind.mpr ⟨within_ofOption, fun n0 isN0 => ?_⟩⟩
  · rw [within_read, bufWidth]
    exact inside_of_le (Nat.le_refl _) (nextWidth ▸ insideWidth)
  · obtain ⟨bufN0, nextN0, insideN0⟩ :=
      decoded_inside small insideWidth real (result_ofOption.mp isN0)
    refine within_bind.mpr ⟨?_, fun _ _ => within_bind.mpr ⟨within_ofOption, fun _ _ =>
      within_bind.mpr ⟨within_ofOption, fun _ _ => within_pure⟩⟩⟩
    rw [within_read, bufN0]
    exact inside_of_le (by omega) (nextN0 ▸ insideN0)

end

end

/-! ### The footer -/

section

variable {memory : Memory} {footerBuf : HvbBuf}

theorem footerParser_within : (footerParser memory footerBuf).Within footerBuf := by
  unfold footerParser
  by_cases short : footerBuf.size < hvbFooterSize
  · rw [if_pos short]
    exact within_fail
  rw [if_neg short]
  refine within_bind.mpr ⟨?_, fun bytes _ => ?_⟩
  · rw [within_read]
    exact inside_of_le (Nat.le_refl _) (Nat.add_le_add_left (Nat.not_lt.mp short) _)
  · dsimp only
    split
    · exact within_fail
    · split
      · exact within_fail
      · exact within_pure

theorem footerParser_eq_ok {footer : HvbFooter} :
    (footerParser memory footerBuf).result = .ok footer ↔
      ¬footerBuf.size < hvbFooterSize ∧
        ¬(footerBytes memory footerBuf).take 4 ≠ hvbFooterMagic ∧
          ¬(footer.size footerBuf < footer.imageSize ∨
            footer.partitionSize < footer.size footerBuf) ∧
            footer = .ofBytes (footerBytes memory footerBuf) := by
  unfold footerParser
  by_cases short : footerBuf.size < hvbFooterSize
  · rw [if_pos short]
    exact iff_of_false (fun no => by cases no) fun both => both.1 short
  rw [if_neg short, result_bind]
  refine ⟨fun ⟨bytes, isBytes, result⟩ => ?_, fun ⟨_, magic, sizes, same⟩ => ?_⟩
  · obtain rfl := Except.ok.inj isBytes
    dsimp only at result
    split at result
    · cases result
    rename_i magic
    split at result
    · cases result
    · rename_i sizes
      obtain rfl := result_pure.mp result
      exact ⟨short, magic, sizes, rfl⟩
  · refine ⟨footerBytes memory footerBuf, rfl, ?_⟩
    rw [if_neg magic, ← same, if_neg sizes]
    exact result_pure.mpr rfl

/-- The footers that are accepted fit, when none is that wraps or whose certificate ends outside of
its partition. -/
theorem footers_fit_iff :
    (∀ footer, (footerParser memory footerBuf).result = .ok footer → footer.Fits footerBuf) ↔
      FooterInRange memory footerBuf := by
  generalize stated : HvbFooter.ofBytes (footerBytes memory footerBuf) = footer
  have partition_ : footer.partitionSize < 2 ^ 64 := stated ▸ field_lt _ 32 8
  unfold FooterInRange
  rw [stated]
  refine ⟨fun fits => ?_, fun range accepted result => ?_⟩
  · by_cases short : footerBuf.size < hvbFooterSize
    · exact .inl short
    by_cases magic : (footerBytes memory footerBuf).take 4 ≠ hvbFooterMagic
    · exact .inr (.inl magic)
    by_cases sizes : footer.size footerBuf < footer.imageSize ∨
        footer.partitionSize < footer.size footerBuf
    · exact .inr (.inr (sizes.imp_right .inl))
    · have fit := fits footer (footerParser_eq_ok.mpr ⟨short, magic, sizes, stated.symm⟩)
      have sum := fit.sizes
      exact .inr (.inr (.inr (.inr ⟨by omega, fit.cert⟩)))
  · obtain ⟨long, magic, sizes, same⟩ := footerParser_eq_ok.mp result
    obtain rfl := same.trans stated
    obtain ⟨notSmall, notLarge⟩ := not_or.mp sizes
    rcases range with no | no | no | no | ⟨cert, inside⟩
    · exact absurd no long
    · exact absurd no magic
    · exact absurd no notSmall
    · exact absurd no notLarge
    · have exact_ : accepted.imageSize + accepted.certSize + footerBuf.size < 2 ^ 64 := by
        by_contra wraps
        refine notSmall ?_
        rw [HvbFooter.size]
        omega
      rw [HvbFooter.size, Nat.mod_eq_of_lt exact_] at notLarge
      exact ⟨Nat.not_lt.mp notLarge, inside⟩

end

/-! ### The root of trust -/

section

variable {bits : Nat} {memory : Memory} {rvt pubk : HvbBuf}

/-- A key lies in the image when it ends there. -/
theorem key_inside_iff {offset length : Nat} (real : rvt.end_ < 2 ^ bits) :
    Area.Inside ⟨(rvt.addr + offset) % 2 ^ bits, length⟩ rvt ↔
      offset % 2 ^ bits + length ≤ rvt.size := by
  unfold Area.Inside Area.end_
  unfold Area.end_ at real
  rw [Nat.add_mod, Nat.mod_eq_of_lt (show rvt.addr < 2 ^ bits by omega)]
  by_cases wraps : rvt.addr + offset % 2 ^ bits < 2 ^ bits
  · rw [Nat.mod_eq_of_lt wraps]
    dsimp only
    omega
  · rw [Nat.mod_eq_sub_mod (Nat.not_lt.mp wraps), Nat.mod_eq_of_lt (by omega)]
    dsimp only
    omega

def descriptorAt (memory : Memory) (p : Nat) : RvtPubkDesc :=
  ⟨Area.bytes memory ⟨p, rvtPubkDescSize⟩⟩

/-- The key that a descriptor designates lies in the image. -/
def KeyInside (bits : Nat) (rvt : HvbBuf) (desc : RvtPubkDesc) : Prop :=
  Area.Inside ⟨(rvt.addr + desc.pubkeyOffset) % 2 ^ bits, desc.pubkeyLen⟩ rvt

variable {desc : RvtPubkDesc}

theorem hvbRvtPubkDescParser_eq_ok : (hvbRvtPubkDescParser memory pubk).result = .ok desc ↔
      pubk.addr ≠ 0 ∧ rvtPubkDescSize ≤ pubk.size ∧ descriptorAt memory pubk.addr = desc := by
  unfold hvbRvtPubkDescParser
  by_cases null : pubk.addr = 0
  · rw [if_pos null]
    exact iff_of_false (fun no => by cases no) fun both => both.1 null
  by_cases short : pubk.size < rvtPubkDescSize
  · rw [if_neg null, if_pos short]
    exact iff_of_false (fun no => by cases no) fun both => Nat.not_le.mpr short both.2.1
  · rw [if_neg null, if_neg short]
    exact ⟨fun same => ⟨null, Nat.not_lt.mp short, Except.ok.inj same⟩,
      fun both => congrArg Except.ok both.2.2⟩

theorem hvbRvtPubkDescParser_within (inside : Area.Inside ⟨pubk.addr, rvtPubkDescSize⟩ rvt) :
    (hvbRvtPubkDescParser memory pubk).Within rvt := by
  unfold hvbRvtPubkDescParser
  split
  · exact within_fail
  · split
    · exact within_fail
    · exact within_bind.mpr ⟨within_read.mpr inside, fun _ _ => within_pure⟩

variable {outer : HvbBuf}

theorem hvbRvtGetPubkBuf_within : (hvbRvtGetPubkBuf bits rvt desc).Within outer := by
  unfold hvbRvtGetPubkBuf
  split
  · exact within_fail
  · exact within_pure

theorem hvbRvtGetPubkBuf_eq_ok {key : HvbBuf} (some_ : rvt.addr ≠ 0) :
    (hvbRvtGetPubkBuf bits rvt desc).result = .ok key ↔
      ⟨(rvt.addr + desc.pubkeyOffset) % 2 ^ bits, desc.pubkeyLen⟩ = key := by
  unfold hvbRvtGetPubkBuf
  rw [if_neg some_]
  exact result_pure

theorem walkNodes_within {State : Type}
    {verify : State → RvtPubkDesc → HvbBuf → Reading HvbErrno State}
    (real : rvt.end_ < 2 ^ bits) (some_ : rvt.addr ≠ 0)
    (each : ∀ state desc key, (verify state desc key).Within key) {nodes p size : Nat}
    {state : State} (start : rvt.addr ≤ p) (room : p + nodes * rvtPubkDescSize ≤ rvt.end_)
    (keys : ∀ place < nodes,
      KeyInside bits rvt (descriptorAt memory (p + place * rvtPubkDescSize))) :
    (walkNodes bits memory rvt verify nodes ⟨p, size⟩ state).Within rvt := by
  induction nodes generalizing p state with
  | zero => exact within_pure
  | succ nodes hypothesis =>
    rw [Nat.succ_mul] at room
    have stop : p + rvtPubkDescSize ≤ rvt.end_ := by omega
    refine within_bind.mpr ⟨hvbRvtPubkDescParser_within (inside_of_le start stop),
      fun desc isDesc => within_bind.mpr ⟨hvbRvtGetPubkBuf_within, fun key isKey =>
        within_bind.mpr ⟨?_, fun next _ => ?_⟩⟩⟩
    · obtain ⟨-, -, rfl⟩ := hvbRvtPubkDescParser_eq_ok.mp isDesc
      obtain rfl := (hvbRvtGetPubkBuf_eq_ok some_).mp isKey
      have inside := keys 0 (Nat.succ_pos nodes)
      exact (each state _ _).mono inside
    · have exact_ : (p + rvtPubkDescSize) % 2 ^ bits = p + rvtPubkDescSize :=
        Nat.mod_eq_of_lt (by omega)
      rw [exact_]
      refine hypothesis (by omega) (by omega) fun place below => ?_
      have inside := keys (place + 1) (Nat.succ_lt_succ below)
      rwa [Nat.succ_mul, Nat.add_comm (place * _), ← Nat.add_assoc] at inside

/-- The key is read, and nothing else. -/
def touch (memory : Memory) (_ : Unit) (_ : RvtPubkDesc) (key : HvbBuf) :
    Reading HvbErrno Unit := do
  let _ ← .read memory key
  pure ()

theorem touch_within {key : HvbBuf} : (touch memory () desc key).Within outer ↔ key.Inside outer :=
  within_bind.trans ((and_iff_left fun _ _ => within_pure).trans within_read)

theorem inside_of_walkNodes (real : rvt.end_ < 2 ^ bits) (some_ : rvt.addr ≠ 0)
    {nodes p size : Nat} (start : rvt.addr ≤ p) (long : rvtPubkDescSize ≤ size)
    (before : p ≤ rvt.end_)
    (within : (walkNodes bits memory rvt (touch memory) nodes ⟨p, size⟩ ()).Within rvt) :
    p + nodes * rvtPubkDescSize ≤ rvt.end_ ∧ ∀ place < nodes,
      KeyInside bits rvt (descriptorAt memory (p + place * rvtPubkDescSize)) := by
  induction nodes generalizing p with
  | zero =>
    exact ⟨before, fun place no => absurd no (Nat.not_lt_zero place)⟩
  | succ nodes hypothesis =>
    have nonzero : p ≠ 0 := by omega
    have isDesc : (hvbRvtPubkDescParser memory ⟨p, size⟩).result = .ok (descriptorAt memory p) :=
      hvbRvtPubkDescParser_eq_ok.mpr ⟨nonzero, long, rfl⟩
    obtain ⟨readsDesc, within⟩ := within_bind.mp within
    obtain ⟨-, within⟩ := within_bind.mp (within _ isDesc)
    obtain ⟨readsKey, within⟩ := within_bind.mp (within _ ((hvbRvtGetPubkBuf_eq_ok some_).mpr rfl))
    have inside : Area.Inside ⟨p, rvtPubkDescSize⟩ rvt := by
      unfold hvbRvtPubkDescParser at readsDesc
      rw [if_neg nonzero, if_neg (Nat.not_lt.mpr long)] at readsDesc
      exact within_read.mp (within_bind.mp readsDesc).1
    have stop : p + rvtPubkDescSize ≤ rvt.end_ := inside.2
    have exact_ : (p + rvtPubkDescSize) % 2 ^ bits = p + rvtPubkDescSize :=
      Nat.mod_eq_of_lt (by omega)
    have within := within () rfl
    rw [exact_] at within
    obtain ⟨room, keys⟩ := hypothesis (by omega) stop within
    refine ⟨by rw [Nat.succ_mul]; omega, fun place below => ?_⟩
    cases place with
    | zero =>
      exact touch_within.mp readsKey
    | succ place =>
      have inside := keys place (Nat.lt_of_succ_lt_succ below)
      rwa [Nat.succ_mul, Nat.add_comm (place * _), ← Nat.add_assoc]

theorem hvbRvtHeadParser_eq_ok {nodes : Nat} :
    (hvbRvtHeadParser bits memory rvt).result = .ok nodes ↔
      rvt.addr ≠ 0 ∧ rvtHeaderSize ≤ rvt.size ∧
        ¬(rvt.size < rvtRealSize bits (verityNum memory rvt) ∨
          rvtRealSize bits (verityNum memory rvt) < rvtHeaderSize) ∧
          verityNum memory rvt = nodes := by
  unfold hvbRvtHeadParser
  by_cases null : rvt.addr = 0
  · rw [if_pos null]
    exact iff_of_false (fun no => by cases no) fun both => both.1 null
  by_cases short : rvt.size < rvtHeaderSize
  · rw [if_neg null, if_pos short]
    exact iff_of_false (fun no => by cases no) fun both => Nat.not_le.mpr short both.2.1
  rw [if_neg null, if_neg short, result_bind]
  refine ⟨fun ⟨bytes, isBytes, result⟩ => ?_, fun ⟨_, _, sizes, same⟩ =>
    ⟨_, rfl, (if_neg sizes).symm ▸ result_pure.mpr same⟩⟩
  obtain rfl := Except.ok.inj isBytes
  dsimp only at result
  split at result
  · cases result
  · rename_i sizes
    exact ⟨null, Nat.not_lt.mp short, sizes, result_pure.mp result⟩

theorem hvbRvtHeadParser_within : (hvbRvtHeadParser bits memory rvt).Within rvt := by
  unfold hvbRvtHeadParser
  by_cases null : rvt.addr = 0
  · rw [if_pos null]
    exact within_fail
  by_cases short : rvt.size < rvtHeaderSize
  · rw [if_neg null, if_pos short]
    exact within_fail
  rw [if_neg null, if_neg short]
  refine within_bind.mpr ⟨within_read.mpr (inside_of_le (Nat.le_refl _)
    (Nat.add_le_add_left (Nat.not_lt.mp short) _)), fun _ _ => ?_⟩
  dsimp only
  split
  · exact within_fail
  · exact within_pure

theorem hvbRvtGetPubkDesc_within : (hvbRvtGetPubkDesc bits rvt).Within outer := by
  unfold hvbRvtGetPubkDesc
  split
  · exact within_fail
  split
  · exact within_fail
  dsimp only
  split
  · exact within_fail
  · exact within_pure

theorem hvbRvtGetPubkDesc_eq (narrow : bits ≤ 64) (real : rvt.end_ < 2 ^ bits)
    (some_ : rvt.addr ≠ 0) (long : rvtHeaderSize ≤ rvt.size) : (hvbRvtGetPubkDesc bits rvt).result =
      .ok ⟨rvt.addr + rvtHeaderSize, rvt.size - rvtHeaderSize⟩ := by
  have most : 2 ^ bits ≤ 2 ^ 64 := Nat.pow_le_pow_right (by decide) narrow
  have size : (rvt.size + 2 ^ 64 - rvtHeaderSize) % 2 ^ 64 = rvt.size - rvtHeaderSize := by
    unfold Area.end_ at real
    rw [Nat.sub_add_comm long, Nat.add_mod_right, Nat.mod_eq_of_lt (by omega)]
  have addr : (rvt.addr + rvtHeaderSize) % 2 ^ bits = rvt.addr + rvtHeaderSize :=
    Nat.mod_eq_of_lt (Nat.lt_of_le_of_lt (Nat.add_le_add_left long _) real)
  unfold hvbRvtGetPubkDesc
  unfold rvtHeaderSize at *
  rw [if_neg some_, if_neg (by unfold sizeofHvbBuf; omega), size, addr, if_neg (by omega)]
  rfl

/-- Whatever is done with the descriptors and keys of an image, it is done inside it, exactly when
they are in range. -/
theorem rvt_within_iff (narrow : bits ≤ 64) (real : rvt.end_ < 2 ^ bits) :
    (∀ (State : Type) (verify : State → RvtPubkDesc → HvbBuf → Reading HvbErrno State)
      (state : State), (∀ state desc key, (verify state desc key).Within key) →
        (hvbWalkVerifyNodes bits memory rvt verify state).Within rvt) ↔
      RvtInRange bits memory rvt := by
  refine ⟨fun within => ?_, fun range State verify state each => within_bind.mpr
    ⟨hvbRvtHeadParser_within, fun nodes isNodes => within_bind.mpr
      ⟨hvbRvtGetPubkDesc_within, fun pubkDescs isDescs => ?_⟩⟩⟩
  · by_cases null : rvt.addr = 0
    · exact .inl null
    by_cases short : rvt.size < rvtHeaderSize + rvtPubkDescSize
    · exact .inr (.inl short)
    by_cases sizes : rvt.size < rvtRealSize bits (verityNum memory rvt) ∨
        rvtRealSize bits (verityNum memory rvt) < rvtHeaderSize
    · exact .inr (.inr (sizes.imp_right .inl))
    have long : rvtHeaderSize ≤ rvt.size := by omega
    have touched := within Unit (touch memory) () fun state desc key =>
      touch_within.mpr ⟨Nat.le_refl _, Nat.le_refl _⟩
    obtain ⟨-, touched⟩ := within_bind.mp touched
    obtain ⟨-, touched⟩ := within_bind.mp
      (touched _ (hvbRvtHeadParser_eq_ok.mpr ⟨null, long, sizes, rfl⟩))
    obtain ⟨room, keys⟩ := inside_of_walkNodes real null (Nat.le_add_right _ _) (by omega)
      (Nat.add_le_add_left long _) (touched _ (hvbRvtGetPubkDesc_eq narrow real null long))
    refine .inr (.inr (.inr (.inr ⟨?_, fun place below => (key_inside_iff real).mp
      (keys place below)⟩)))
    unfold Area.end_ at room
    omega
  · obtain ⟨some_, long, sizes, rfl⟩ := hvbRvtHeadParser_eq_ok.mp isNodes
    obtain rfl := Except.ok.inj ((hvbRvtGetPubkDesc_eq narrow real some_ long).symm.trans isDescs)
    rcases range with no | short | no | no | ⟨room, keys⟩
    · exact absurd no some_
    · cases count : verityNum memory rvt with
      | zero => exact within_pure
      | succ nodes =>
        have fails : ∀ desc, (hvbRvtPubkDescParser memory
            ⟨rvt.addr + rvtHeaderSize, rvt.size - rvtHeaderSize⟩).result ≠ .ok desc :=
          fun desc isDesc => by
            obtain ⟨-, enough, -⟩ := hvbRvtPubkDescParser_eq_ok.mp isDesc
            dsimp only at enough
            omega
        refine within_bind.mpr ⟨?_, fun desc isDesc => absurd isDesc (fails desc)⟩
        unfold hvbRvtPubkDescParser
        split
        · exact within_fail
        · rw [if_pos (by dsimp only; omega)]
          exact within_fail
    · exact absurd (.inl no) sizes
    · exact absurd (.inr no) sizes
    · refine walkNodes_within real some_ each (Nat.le_add_right _ _) ?_ fun place below =>
        (key_inside_iff real).mpr (keys place below)
      unfold Area.end_
      omega

end

/-- The parsers of verified boot are contained for exactly the footers and images in range, and
for all certificates and public keys. -/
theorem parsers_contained_iff (bits : Nat) (wide : 32 ≤ bits) (narrow : bits ≤ 64) (memory : Memory)
    (footerBuf certBuf rawPubk rvt : HvbBuf) (realCert : certBuf.end_ < 2 ^ bits)
    (realPubk : rawPubk.end_ < 2 ^ bits) (realRvt : rvt.end_ < 2 ^ bits) :
    Contained bits memory footerBuf certBuf rawPubk rvt ↔
      FooterInRange memory footerBuf ∧ RvtInRange bits memory rvt := by
  refine ⟨fun contained => ⟨footers_fit_iff.mp contained.footers,
    (rvt_within_iff narrow realRvt).mp contained.rvtReads⟩, fun ⟨footer, root⟩ => ?_⟩
  exact
    { footerReads := footerParser_within
      certReads := hvbCertParser_within wide realCert
      pubkReads := hvbCertPubkParser_within wide realPubk
      rvtReads := (rvt_within_iff narrow realRvt).mpr root
      certs := fun cert => hvbCertParser_laid wide realCert
      footers := footers_fit_iff.mpr footer }

/-- A footer at 4096 of a partition of 65536 bytes, with an image of 4096 and a certificate of 1024
bytes at 4096; and at 8192 an image with one descriptor, whose key has eight bytes at an offset. -/
def sample (offset : BitVec 8) : Memory := fun address =>
  if address = 4096 then 0x48#8
  else if address = 4097 then 0x56#8
  else if address = 4098 then 0x42#8
  else if address = 4105 then 0x10#8
  else if address = 4113 then 0x04#8
  else if address = 4121 then 0x10#8
  else if address = 4130 then 0x01#8
  else if address = 8196 then 0x01#8
  else if address = 8329 then offset
  else if address = 8336 then 0x08#8
  else 0#8

theorem parsers_contained_iff_sample :
    Contained 64 (sample 2) ⟨4096, 104⟩ ⟨4096, 512⟩ ⟨4096, 256⟩ ⟨8192, 680⟩ ∧
      (footerParser (sample 2) ⟨4096, 104⟩).result = .ok ⟨4096, 1024, 4096, 65536⟩ := by
  have inRange : RvtInRange 64 (sample 2) ⟨8192, 680⟩ := by
    refine .inr (.inr (.inr (.inr ⟨by decide +kernel, fun place below => ?_⟩)))
    have one : verityNum (sample 2) ⟨8192, 680⟩ = 1 := by decide +kernel
    obtain rfl : place = 0 := by omega
    decide +kernel
  refine ⟨(parsers_contained_iff 64 (by decide) (by decide) (sample 2) _ _ _ _ (by decide) (by decide)
    (by decide)).mpr ⟨?_, inRange⟩, by decide +kernel⟩
  exact .inr (.inr (.inr (.inr ⟨by decide +kernel, by decide +kernel⟩)))

/-- A key that begins behind the image is handed on. -/
theorem key_outside : ¬∀ (bits : Nat) (memory : Memory) (footerBuf certBuf rawPubk rvt : HvbBuf),
      32 ≤ bits → bits ≤ 64 → certBuf.end_ < 2 ^ bits → rawPubk.end_ < 2 ^ bits →
        rvt.end_ < 2 ^ bits → Contained bits memory footerBuf certBuf rawPubk rvt :=
  fun contained => by
    have within := (contained 64 (sample 3) ⟨4096, 104⟩ ⟨4096, 512⟩ ⟨4096, 256⟩ ⟨8192, 680⟩
      (by decide) (by decide) (by decide) (by decide) (by decide)).rvtReads Unit
        (touch (sample 3)) () fun _ _ _ => touch_within.mpr ⟨Nat.le_refl _, Nat.le_refl _⟩
    have read : (⟨8960, 8⟩ : HvbBuf) ∈
        (hvbWalkVerifyNodes 64 (sample 3) ⟨8192, 680⟩ (touch (sample 3)) ()).reads := by
      decide +kernel
    exact absurd (within _ read) (by decide)

end TowerSafe.Hvb
