/-
This file embeds `hvb_hash_sha256.c`. The compression works in place on eight words and fills the
message schedule as it goes; a message comes in pieces, of which what does not fill a block is kept.
The digest of the pieces is that of the whole message exactly when its length in bits fits into 32
bits and is not 0.
-/

import TowerSafe.Library.Fields
import TowerSafe.Library.Sha256
import Mathlib.Tactic.IntervalCases

namespace TowerSafe.Sha256

open Library
open List (append_assoc append_nil length_append length_drop length_singleton length_take_of_le
  nil_append take_left')

abbrev Word := BitVec 32

abbrev Regs := Vector Word 8

/-! ### Compression -/

def shr (x : Word) (n : Nat) : Word := x >>> n

def rotr (x : Word) (n : Nat) : Word := shr x n ||| x <<< (32 - n)

def sigma0 (x : Word) : Word := rotr x 2 ^^^ rotr x 13 ^^^ rotr x 22

def sigma1 (x : Word) : Word := rotr x 6 ^^^ rotr x 11 ^^^ rotr x 25

def sigma2 (x : Word) : Word := rotr x 7 ^^^ rotr x 18 ^^^ shr x 3

def sigma3 (x : Word) : Word := rotr x 17 ^^^ rotr x 19 ^^^ shr x 10

def maj (x y z : Word) : Word := (x &&& y) ^^^ (x &&& z) ^^^ (y &&& z)

def ch (x y z : Word) : Word := (x &&& y) ^^^ (~~~x &&& z)

def constKey : List Word :=
  [0x428A2F98, 0x71374491, 0xB5C0FBCF, 0xE9B5DBA5, 0x3956C25B, 0x59F111F1, 0x923F82A4, 0xAB1C5ED5,
    0xD807AA98, 0x12835B01, 0x243185BE, 0x550C7DC3, 0x72BE5D74, 0x80DEB1FE, 0x9BDC06A7, 0xC19BF174,
    0xE49B69C1, 0xEFBE4786, 0x0FC19DC6, 0x240CA1CC, 0x2DE92C6F, 0x4A7484AA, 0x5CB0A9DC, 0x76F988DA,
    0x983E5152, 0xA831C66D, 0xB00327C8, 0xBF597FC7, 0xC6E00BF3, 0xD5A79147, 0x06CA6351, 0x14292967,
    0x27B70A85, 0x2E1B2138, 0x4D2C6DFC, 0x53380D13, 0x650A7354, 0x766A0ABB, 0x81C2C92E, 0x92722C85,
    0xA2BFE8A1, 0xA81A664B, 0xC24B8B70, 0xC76C51A3, 0xD192E819, 0xD6990624, 0xF40E3585, 0x106AA070,
    0x19A4C116, 0x1E376C08, 0x2748774C, 0x34B0BCB5, 0x391C0CB3, 0x4ED8AA4A, 0x5B9CCA4F, 0x682E6FF3,
    0x748F82EE, 0x78A5636F, 0x84C87814, 0x8CC70208, 0x90BEFFFA, 0xA4506CEB, 0xBEF9A3F7, 0xC67178F2]

def sha256IvInit : Regs :=
  #v[0x6a09e667, 0xbb67ae85, 0x3c6ef372, 0xa54ff53a, 0x510e527f, 0x9b05688c, 0x1f83d9ab, 0x5be0cd19]

def bigendReadWord (data : Bytes) : Word :=
  let res := (data.getD 0 0).setWidth 32
  let res := res <<< 8 ||| (data.getD 1 0).setWidth 32
  let res := res <<< 8 ||| (data.getD 2 0).setWidth 32
  res <<< 8 ||| (data.getD 3 0).setWidth 32

/-- `w_schedule`, for the words of `w` that are already there. -/
def wSchedule (w : List Word) (t : Nat) : Word :=
  sigma3 (w.getD (t - 2) 0) + w.getD (t - 7) 0 + sigma2 (w.getD (t - 15) 0) + w.getD (t - 16) 0

def rotateRegs (regs : Regs) : Regs :=
  #v[regs[7], regs[0], regs[1], regs[2], regs[3], regs[4], regs[5], regs[6]]

/-- What the loop of `sha256_block_calc` changes: the registers, the words that are there, and where
`data` points to. -/
structure BlockState where
  regs : Regs
  w : List Word
  data : Bytes

def blockTurn (state : BlockState) (t : Nat) : BlockState :=
  let word := if t < 16 then bigendReadWord state.data else wSchedule state.w t
  let regs := state.regs
  let t1 := regs[7] + sigma1 regs[4] + ch regs[4] regs[5] regs[6] + constKey.getD t 0 + word
  let regs := regs.set 3 (regs[3] + t1)
  let regs := regs.set 7 (sigma0 regs[0] + maj regs[0] regs[1] regs[2] + t1)
  ⟨rotateRegs regs, state.w ++ [word], state.data.drop 4⟩

def sha256BlockCalc (regs : Regs) (data : Bytes) : Regs :=
  ((List.range 64).foldl blockTurn ⟨regs, [], data⟩).regs

/-- A turn of the loop of `sha256_data_blk_update`. -/
def blkUpdate (iv : Regs) (pdata : Bytes) : Regs :=
  Vector.zipWith (· + ·) iv (sha256BlockCalc iv pdata)

def sha256DataBlkUpdate (iv : Regs) (msg : Bytes) (len : Nat) : Regs :=
  Blocks.run 64 blkUpdate (len / 64) iv msg

/-! ### Padding -/

/-- The return values other than `HASH_OK`. -/
inductive HashError where
  | totalLen
  | algNoSupport
  | bufLen
  | outbufNoEnough
  deriving DecidableEq

def blkByteSizeSha256 : Nat := 64

def blkWordSizeSha256 : Nat := 16

def ivByteSizeSha256 : Nat := 32

def padInfoByteLenSha256 : Nat := 8

def htobe32 (value : Word) : Word :=
  (value &&& 0x000000FF) <<< 24 ||| (value &&& 0x0000FF00) <<< 8 |||
    (value &&& 0x00FF0000) >>> 8 ||| (value &&& 0xFF000000) >>> 24

def wordBytes (word : Word) : Bytes := Bytes.ofNat 4 word.toNat

/-- What `sha256_pad` has before it is written. -/
def stackBytes (stack : Nat → BitVec 8) : Bytes :=
  (List.range (2 * blkByteSizeSha256)).map stack

/-- The words of the padding, for one block or two. -/
def padWordLen (leftLen : Nat) : Nat :=
  if leftLen + 1 + padInfoByteLenSha256 ≤ blkByteSizeSha256 then blkWordSizeSha256
  else 2 * blkWordSizeSha256

/-- What `hash_sha256_pad_update` writes into `sha256_pad`. -/
def sha256Pad (stack : Nat → BitVec 8) (leftMsg : Bytes) (leftLen : Nat)
    (totalBitLen : BitVec 64) : Bytes :=
  let pad := (stackBytes stack).overwrite 0 (leftMsg.take leftLen)
  let pad := pad.overwrite leftLen [0x80]
  let pad := pad.overwrite (leftLen + 1)
    (List.replicate (4 * padWordLen leftLen - (leftLen + 1) - padInfoByteLenSha256) 0)
  let pad := pad.overwrite (4 * (padWordLen leftLen - 1))
    (wordBytes (htobe32 (totalBitLen.setWidth 32)))
  pad.overwrite (4 * (padWordLen leftLen - 2))
    (wordBytes (htobe32 ((totalBitLen >>> 32).setWidth 32)))

def hashSha256PadUpdate (stack : Nat → BitVec 8) (iv : Regs) (leftMsg : Bytes) (leftLen : Nat)
    (totalBitLen : BitVec 64) : Regs :=
  sha256DataBlkUpdate iv (sha256Pad stack leftMsg leftLen totalBitLen) (4 * padWordLen leftLen)

def hashSha256OutputIv (iv : Regs) (outLen : Nat) : Except HashError Bytes :=
  if outLen < ivByteSizeSha256 then .error .outbufNoEnough
  else .ok ((iv.map htobe32).toList.flatMap wordBytes)

/-! ### The interface -/

/-- A message of the interface, whose length fits into 32 bits. -/
structure Chunk where
  bytes : Bytes
  fits : bytes.length < 2 ^ 32

def Chunk.len (chunk : Chunk) : BitVec 32 := .ofNat 32 chunk.bytes.length

def hashSha256Single (stack : Nat → BitVec 8) (msg : Chunk) (outLen : Nat) :
    Except HashError Bytes :=
  let totalBitLen := msg.len.setWidth 64 * 8
  if totalBitLen < msg.len.setWidth 64 then .error .totalLen
  else
    let dataSize := msg.bytes.length / blkByteSizeSha256 * blkByteSizeSha256
    let iv := if 0 < dataSize then sha256DataBlkUpdate sha256IvInit msg.bytes dataSize
      else sha256IvInit
    let iv := hashSha256PadUpdate stack iv (msg.bytes.drop dataSize) (msg.bytes.length - dataSize)
      totalBitLen
    hashSha256OutputIv iv outLen

/-- `struct hash_ctx_t`, with the words of `iv` that are used. -/
structure HashCtx where
  algType : BitVec 32
  bufLen : Nat
  totalLen : BitVec 32
  iv : Regs
  blkBuf : Bytes

def hashAlgSha256 : BitVec 32 := 0

def hashAlgGetBlklen (algType : BitVec 32) : Nat :=
  if algType = hashAlgSha256 then blkByteSizeSha256 else 0

def hashCtxInit (hashCtx : HashCtx) (algType : BitVec 32) : Except HashError HashCtx :=
  if algType ≠ hashAlgSha256 then .error .algNoSupport
  else .ok { hashCtx with algType := algType, bufLen := 0, totalLen := 0, iv := sha256IvInit }

/-- The block that is completed by the start of a message: the context, and the rest. -/
def fillBlock (hashCtx : HashCtx) (blkLen : Nat) (msg : Bytes) : HashCtx × Bytes :=
  let leftLen := blkLen - hashCtx.bufLen
  if hashCtx.bufLen ≠ 0 ∧ leftLen ≤ msg.length then
    let blkBuf := hashCtx.blkBuf.overwrite hashCtx.bufLen (msg.take leftLen)
    ({ hashCtx with
        blkBuf := blkBuf
        iv := sha256DataBlkUpdate hashCtx.iv blkBuf blkLen
        bufLen := 0 }, msg.drop leftLen)
  else (hashCtx, msg)

/-- The blocks that a message has itself. -/
def wholeBlocks (blkLen : Nat) (state : HashCtx × Bytes) : HashCtx × Bytes :=
  if blkLen ≤ state.2.length then
    let calcLen := state.2.length / blkLen * blkLen
    ({ state.1 with iv := sha256DataBlkUpdate state.1.iv state.2 calcLen }, state.2.drop calcLen)
  else state

/-- What is left is kept. -/
def keepRest (state : HashCtx × Bytes) : HashCtx :=
  if state.2.length ≠ 0 then
    { state.1 with
      blkBuf := state.1.blkBuf.overwrite state.1.bufLen state.2
      bufLen := state.1.bufLen + state.2.length }
  else state.1

def hashCalcUpdate (hashCtx : HashCtx) (msg : Chunk) : Except HashError HashCtx :=
  let blkLen := hashAlgGetBlklen hashCtx.algType
  if blkLen = 0 then .error .algNoSupport
  else if blkLen ≤ hashCtx.bufLen then .error .bufLen
  else
    let hashCtx := { hashCtx with totalLen := hashCtx.totalLen + msg.len }
    .ok (keepRest (wholeBlocks blkLen (fillBlock hashCtx blkLen msg.bytes)))

/-- What `hash_calc_do_final` does behind the last update. The number of bits is computed in 32
bits. -/
def finish (stack : Nat → BitVec 8) (hashCtx : HashCtx) (outLen : Nat) : Except HashError Bytes :=
  let totalBitLen := (hashCtx.totalLen * 8).setWidth 64
  if totalBitLen ≤ hashCtx.totalLen.setWidth 64 then .error .totalLen
  else
    let iv := hashSha256PadUpdate stack hashCtx.iv hashCtx.blkBuf hashCtx.bufLen totalBitLen
    hashSha256OutputIv iv outLen

def hashCalcDoFinal (stack : Nat → BitVec 8) (hashCtx : HashCtx) (msg : Chunk) (outLen : Nat) :
    Except HashError Bytes := do
  let hashCtx ← hashCalcUpdate hashCtx msg
  finish stack hashCtx outLen

/-- A message in several pieces: the context is set up, each piece but the last is taken in, and the
last is the end. -/
def hashChunks (stack : Nat → BitVec 8) (hashCtx : HashCtx) (chunks : List Chunk) (last : Chunk)
    (outLen : Nat) : Except HashError Bytes := do
  let hashCtx ← hashCtxInit hashCtx hashAlgSha256
  let hashCtx ← chunks.foldlM hashCalcUpdate hashCtx
  hashCalcDoFinal stack hashCtx last outLen

/-! ### The compression is that of SHA-256 -/

theorem constKey_eq : constKey = Library.Sha256.constants := by
  decide +kernel

/-- The words of the state, under their names. -/
def toWorking (regs : Regs) : Library.Sha256.Working :=
  ⟨regs[0], regs[1], regs[2], regs[3], regs[4], regs[5], regs[6], regs[7]⟩

theorem toWorking_init : toWorking sha256IvInit = Library.Sha256.initial := by
  decide +kernel

theorem toNat_shift_or {word : Word} (byte : BitVec 8) (small : word.toNat < 2 ^ 24) :
    (word <<< 8 ||| byte.setWidth 32).toNat = byte.toNat + 256 * word.toNat := by
  have inside := byte.isLt
  have low : byte.toNat % 2 ^ 32 = byte.toNat := Nat.mod_eq_of_lt (by omega)
  have high : word.toNat <<< 8 % 2 ^ 32 = word.toNat <<< 8 := by
    exact Nat.mod_eq_of_lt (by omega)
  rw [BitVec.toNat_or, BitVec.toNat_shiftLeft, BitVec.toNat_setWidth, low, high,
    ← Nat.shiftLeft_add_eq_or_of_lt inside]
  omega

theorem bigendReadWord_eq {data : Bytes} (long : 4 ≤ data.length) :
    bigendReadWord data = .ofNat 32 (Bytes.toNat (data.slice 0 4).reverse) := by
  obtain ⟨first, second, third, fourth, rest, rfl⟩ : ∃ first second third fourth rest,
      data = first :: second :: third :: fourth :: rest := by
    match data, long with
    | first :: second :: third :: fourth :: rest, _ => exact ⟨_, _, _, _, rest, rfl⟩
  have one : (first.setWidth 32 : Word).toNat = first.toNat := by
    rw [BitVec.toNat_setWidth]
    exact Nat.mod_eq_of_lt (by omega)
  have two := @toNat_shift_or (first.setWidth 32) second (by omega)
  have three := @toNat_shift_or (first.setWidth 32 <<< 8 ||| second.setWidth 32) third (by omega)
  have four := @toNat_shift_or
    ((first.setWidth 32 <<< 8 ||| second.setWidth 32) <<< 8 ||| third.setWidth 32) fourth
    (by omega)
  have bytes : Bytes.toNat (Bytes.slice (first :: second :: third :: fourth :: rest) 0 4).reverse =
      fourth.toNat + 256 * (third.toNat + 256 * (second.toNat + 256 * (first.toNat + 256 * 0))) :=
    rfl
  refine BitVec.eq_of_toNat_eq ?_
  rw [bytes, BitVec.toNat_ofNat, Nat.mod_eq_of_lt (by omega)]
  refine four.trans ?_
  rw [three, two, one, Nat.add_zero]

theorem word_eq {block : Bytes} (whole : block.length = 64) {t : Nat}
    (inside : t < (Library.Sha256.schedule block).length) :
    (if t < 16 then bigendReadWord (block.drop (4 * t))
      else wSchedule ((Library.Sha256.schedule block).take t) t) =
      (Library.Sha256.schedule block)[t] := by
  by_cases input : t < 16
  · rw [if_pos input, bigendReadWord_eq (by rw [length_drop]; omega)]
    have word : ((Library.Sha256.schedule block).take 16).get ⟨t, by rw [List.length_take]; omega⟩ =
        (Library.Sha256.blockWords block).get
          ⟨t, by rw [Library.Sha256.length_blockWords]; exact input⟩ := by
      simp only [List.get_eq_getElem, Library.Sha256.take_schedule]
    rw [List.get_eq_getElem, List.get_eq_getElem, List.getElem_take] at word
    rw [word, Bytes.slice, List.drop_zero]
    simp only [Library.Sha256.blockWords, List.getElem_map, List.getElem_range, Bytes.slice]
  · rw [if_neg input, Library.Sha256.getElem_schedule block (by omega) inside,
      Library.Sha256.nextWord, length_take_of_le (by omega)]
    rfl

theorem exists_regs (regs : Regs) : ∃ a b c d e f g h, regs = #v[a, b, c, d, e, f, g, h] := by
  obtain ⟨⟨regs⟩, size⟩ := regs
  match regs, size with
  | [a, b, c, d, e, f, g, h], _ => exact ⟨a, b, c, d, e, f, g, h, rfl⟩

theorem toWorking_blockTurn (state : BlockState) (t : Nat) (word : Word)
    (made : (if t < 16 then bigendReadWord state.data else wSchedule state.w t) = word) :
    toWorking (blockTurn state t).regs =
      Library.Sha256.round (toWorking state.regs) (constKey.getD t 0, word) := by
  unfold blockTurn
  rw [made]
  obtain ⟨regs, w, data⟩ := state
  obtain ⟨a, b, c, d, e, f, g, h, rfl⟩ := exists_regs regs
  ext1
  · exact BitVec.add_comm _ _
  · rfl
  · rfl
  · rfl
  · rfl
  · rfl
  · rfl
  · rfl

theorem foldl_blockTurn {block : Bytes} (whole : block.length = 64) (regs : Regs) {count : Nat}
    (inside : count ≤ 64) : ((List.range count).foldl blockTurn ⟨regs, [], block⟩).w =
        (Library.Sha256.schedule block).take count ∧
      ((List.range count).foldl blockTurn ⟨regs, [], block⟩).data = block.drop (4 * count) ∧
      toWorking ((List.range count).foldl blockTurn ⟨regs, [], block⟩).regs =
        ((Library.Sha256.constants.zip (Library.Sha256.schedule block)).take count).foldl
          Library.Sha256.round (toWorking regs) := by
  have length := Library.Sha256.length_schedule block
  have keys : Library.Sha256.constants.length = 64 := constKey_eq ▸ rfl
  induction count with
  | zero => exact ⟨rfl, rfl, rfl⟩
  | succ count hypothesis =>
    obtain ⟨w, data, working⟩ := hypothesis (by omega)
    have made := @word_eq block whole count (by omega)
    rw [← w, ← data] at made
    rw [List.range_succ, List.foldl_append, List.foldl_cons, List.foldl_nil]
    refine ⟨?_, ?_, ?_⟩
    · rw [blockTurn, made, w]
      exact List.take_concat_get' _ _ (by omega)
    · rw [blockTurn, data, List.drop_drop, Nat.mul_succ]
    · have zipped : count < (Library.Sha256.constants.zip
          (Library.Sha256.schedule block)).length := by
        rw [List.length_zip]
        omega
      have key : ∀ keys : List Word, constKey = keys → ∀ within : count < keys.length,
          constKey.getD count 0 = keys[count] := by
        intro keys same within
        rw [same]
        exact List.getD_eq_getElem keys 0 within
      rw [toWorking_blockTurn _ _ _ made, working, List.take_succ_eq_append_getElem zipped,
        List.foldl_append, List.foldl_cons, List.foldl_nil, List.getElem_zip,
        key _ constKey_eq (by omega)]

theorem toWorking_blkUpdate (iv : Regs) (block : Bytes) (whole : block.length = 64) :
    toWorking (blkUpdate iv block) = Library.Sha256.compress (toWorking iv) block := by
  have length := Library.Sha256.length_schedule block
  have rounds := (foldl_blockTurn whole iv (Nat.le_refl 64)).2.2
  rw [List.take_of_length_le (by rw [List.length_zip]; omega)] at rounds
  have regs : ((List.range 64).foldl blockTurn ⟨iv, [], block⟩).regs = sha256BlockCalc iv block :=
    rfl
  rw [Library.Sha256.compress, ← rounds, blkUpdate, regs]
  simp only [toWorking, Library.Sha256.Working.add, Vector.getElem_zipWith]

/-! ### Padding and output -/

theorem wordBytes_eq (word : Word) :
    wordBytes word = [word.extractLsb' 0 8, word.extractLsb' 8 8, word.extractLsb' 16 8,
      word.extractLsb' 24 8] := by
  simp only [wordBytes, Bytes.ofNat, BitVec.extractLsb', Nat.shiftRight_eq_div_pow,
    Nat.div_div_eq_div_mul]
  rw [Nat.div_one]

theorem extractLsb'_htobe32 (word : Word) : (htobe32 word).extractLsb' 0 8 = word.extractLsb' 24 8 ∧
      (htobe32 word).extractLsb' 8 8 = word.extractLsb' 16 8 ∧
      (htobe32 word).extractLsb' 16 8 = word.extractLsb' 8 8 ∧
      (htobe32 word).extractLsb' 24 8 = word.extractLsb' 0 8 := by
  refine ⟨?_, ?_, ?_, ?_⟩ <;> ext bit inside <;>
    simp only [htobe32, BitVec.getElem_extractLsb', BitVec.getLsbD_or, BitVec.getLsbD_shiftLeft,
      BitVec.getLsbD_ushiftRight, BitVec.getLsbD_and] <;> interval_cases bit <;> simp

theorem wordBytes_htobe32 (word : Word) :
    wordBytes (htobe32 word) = Library.Sha256.bigEndian 4 word.toNat := by
  obtain ⟨first, second, third, fourth⟩ := extractLsb'_htobe32 word
  have bytes : Library.Sha256.bigEndian 4 word.toNat = (wordBytes word).reverse := rfl
  rw [bytes, wordBytes_eq, wordBytes_eq, first, second, third, fourth]
  rfl

theorem length_wordBytes (word : Word) : (wordBytes word).length = 4 := Bytes.length_ofNat _ _

theorem bigEndian_words (bits : BitVec 64) :
    Library.Sha256.bigEndian 4 ((bits >>> 32).setWidth 32 : Word).toNat ++
        Library.Sha256.bigEndian 4 (bits.setWidth 32 : Word).toNat =
      Library.Sha256.bigEndian 8 bits.toNat := by
  have high : ((bits >>> 32).setWidth 32 : Word).toNat = bits.toNat / 256 ^ 4 := by
    rw [BitVec.toNat_setWidth, BitVec.toNat_ushiftRight, Nat.shiftRight_eq_div_pow]
    exact Nat.mod_eq_of_lt (by omega)
  have low : (bits.setWidth 32 : Word).toNat = bits.toNat % 256 ^ 4 := BitVec.toNat_setWidth _ _
  rw [high, low, Library.Sha256.bigEndian, Library.Sha256.bigEndian, Bytes.ofNat_mod,
    ← List.reverse_append, Bytes.ofNat_append]
  rfl

theorem padWordLen_cases (leftLen : Nat) :
    padWordLen leftLen = 16 ∧ leftLen ≤ 55 ∨ padWordLen leftLen = 32 ∧ 56 ≤ leftLen := by
  unfold padWordLen padInfoByteLenSha256 blkByteSizeSha256 blkWordSizeSha256
  split_ifs with one
  · exact .inl ⟨rfl, by omega⟩
  · exact .inr ⟨rfl, by omega⟩

theorem take_sha256Pad (stack : Nat → BitVec 8) {leftMsg left : Bytes} (bits : BitVec 64)
    (same : leftMsg.take left.length = left) (short : left.length < 64) :
    (sha256Pad stack leftMsg left.length bits).take (4 * padWordLen left.length) =
      left ++ Library.Sha256.padding left.length bits.toNat := by
  have words := padWordLen_cases left.length
  have size : (stackBytes stack).length = 128 := by
    rw [stackBytes, List.length_map, List.length_range, blkByteSizeSha256]
  unfold sha256Pad
  dsimp only
  rw [same]
  generalize padWordLen left.length = count at words ⊢
  generalize gap : List.replicate (4 * count - (left.length + 1) - padInfoByteLenSha256)
    (0 : BitVec 8) = zeros
  have length : ((left ++ [0x80]) ++ zeros).length = 4 * count - 8 := by
    rw [length_append, length_append, ← gap, List.length_replicate,
      length_singleton, padInfoByteLenSha256]
    omega
  obtain ⟨behind, written, more⟩ : ∃ behind, Bytes.overwrite (Bytes.overwrite
      (Bytes.overwrite (stackBytes stack) 0 left) left.length [0x80]) (left.length + 1) zeros =
        ((left ++ [0x80]) ++ zeros) ++ behind ∧ 8 ≤ behind.length := by
    have first : Bytes.overwrite (stackBytes stack) 0 left =
        left ++ (stackBytes stack).drop left.length :=
      Bytes.overwrite_behind [] _ _
    have place : left.length + 1 = (left ++ [0x80]).length := by
      rw [length_append, length_singleton]
    rw [first, Bytes.overwrite_behind, ← append_assoc, place, Bytes.overwrite_behind,
      ← append_assoc]
    refine ⟨_, rfl, ?_⟩
    have total := length
    rw [length_append, length_append] at total
    rw [length_singleton] at total
    rw [length_drop, length_drop, length_drop, length_singleton]
    omega
  rw [written]
  generalize lower : wordBytes (htobe32 (bits.setWidth 32)) = low
  generalize upper : wordBytes (htobe32 ((bits >>> 32).setWidth 32)) = high
  generalize front : (left ++ [0x80]) ++ zeros = start at *
  have sizes : low.length = 4 ∧ high.length = 4 := by
    rw [← lower, ← upper]
    exact ⟨length_wordBytes _, length_wordBytes _⟩
  have last : Bytes.overwrite (Bytes.overwrite (start ++ behind) (4 * (count - 1)) low)
      (4 * (count - 2)) high = (start ++ (high ++ low)) ++ (behind.drop 4).drop 4 := by
    have second : 4 * (count - 1) = (start ++ behind.take 4).length := by
      rw [length_append, length_take_of_le (by omega)]
      omega
    have third : 4 * (count - 2) = start.length := by omega
    have split : start ++ behind = (start ++ behind.take 4) ++ behind.drop 4 := by
      rw [append_assoc, List.take_append_drop]
    rw [split, second, Bytes.overwrite_behind, third, append_assoc,
      Bytes.overwrite_append _ (by rw [sizes.2, length_take_of_le (by omega)]), sizes.1]
    simp only [append_assoc]
  have total : (start ++ (high ++ low)).length = 4 * count := by
    rw [length_append, length_append]
    omega
  have number : high ++ low = Library.Sha256.bigEndian 8 bits.toNat := by
    rw [← lower, ← upper, wordBytes_htobe32, wordBytes_htobe32, bigEndian_words]
  have count_ : 4 * count - (left.length + 1) - padInfoByteLenSha256 =
      (119 - left.length % 64) % 64 := by
    rw [padInfoByteLenSha256]
    omega
  rw [last, take_left' total, number, ← front, ← gap, count_, Library.Sha256.padding]
  simp only [append_assoc, List.cons_append, nil_append]

/-- The state behind some bytes and their padding. -/
def closed (iv : Regs) (left : Bytes) (size bits : Nat) : Regs :=
  (Blocks.absorb 64 blkUpdate iv (left ++ Library.Sha256.padding size bits)).1

theorem hashSha256PadUpdate_eq (stack : Nat → BitVec 8) (iv : Regs) {leftMsg left : Bytes}
    (bits : BitVec 64) (same : leftMsg.take left.length = left) (short : left.length < 64) :
    hashSha256PadUpdate stack iv leftMsg left.length bits =
      closed iv left left.length bits.toNat := by
  have taken := take_sha256Pad stack bits same short
  have words := padWordLen_cases left.length
  have zeros : (Library.Sha256.padding left.length bits.toNat).length =
      9 + (119 - left.length % 64) % 64 := by
    rw [Library.Sha256.padding, List.length_cons, length_append, List.length_replicate,
      Library.Sha256.bigEndian, List.length_reverse, Bytes.length_ofNat]
    omega
  have length : (left ++ Library.Sha256.padding left.length bits.toNat).length =
      4 * padWordLen left.length := by
    rw [length_append]
    omega
  rw [hashSha256PadUpdate, closed, Blocks.absorb, length]
  rw [← taken]
  have split := List.take_append_drop (4 * padWordLen left.length)
    (sha256Pad stack leftMsg left.length bits)
  conv_lhs => rw [← split]
  refine Blocks.run_append 64 blkUpdate _ _ _ _ ?_
  rw [taken]
  omega

theorem padding_mod (size bits : Nat) :
    Library.Sha256.padding (size % 64) bits = Library.Sha256.padding size bits := by
  rw [Library.Sha256.padding, Library.Sha256.padding, Nat.mod_mod]

theorem hashSha256OutputIv_eq {outLen : Nat} (room : ivByteSizeSha256 ≤ outLen) (message : Bytes)
    (bits : Nat) : hashSha256OutputIv (closed (Blocks.absorb 64 blkUpdate sha256IvInit message).1
        (Blocks.absorb 64 blkUpdate sha256IvInit message).2 message.length bits) outLen =
      .ok (Library.Sha256.digestWith bits message) := by
  have words : ∀ iv : Regs, (iv.map htobe32).toList.flatMap wordBytes =
      (toWorking iv).words.flatMap fun word => Library.Sha256.bigEndian 4 word.toNat := by
    intro iv
    have list : (toWorking iv).words = iv.toList := by
      obtain ⟨a, b, c, d, e, f, g, h, rfl⟩ := exists_regs iv
      rfl
    rw [list, Vector.toList_map, List.flatMap_map]
    exact congrArg (List.flatMap · iv.toList) (funext wordBytes_htobe32)
  rw [hashSha256OutputIv, if_neg (Nat.not_lt.mpr room), words, closed,
    ← Blocks.absorb_append 64 blkUpdate (by decide), Library.Sha256.digestWith,
    Blocks.absorb_map 64 blkUpdate toWorking toWorking_blkUpdate, toWorking_init]

/-! ### Whole messages -/

theorem hashSha256Single_eq (stack : Nat → BitVec 8) (msg : Chunk) {outLen : Nat}
    (room : ivByteSizeSha256 ≤ outLen) :
    hashSha256Single stack msg outLen = .ok (Library.Sha256.digest msg.bytes) := by
  have fits := msg.fits
  have len : (msg.len.setWidth 64).toNat = msg.bytes.length := by
    exact Nat.mod_eq_of_lt (by omega)
  have bits : (msg.len.setWidth 64 * 8 : BitVec 64).toNat = 8 * msg.bytes.length := by
    have eight : (8 : BitVec 64).toNat = 8 := rfl
    rw [BitVec.toNat_mul, len, eight, Nat.mul_comm]
    exact Nat.mod_eq_of_lt (by omega)
  have size : msg.bytes.length / blkByteSizeSha256 * blkByteSizeSha256 =
      64 * (msg.bytes.length / 64) := Nat.mul_comm _ _
  have left : (msg.bytes.drop (64 * (msg.bytes.length / 64))).length =
      msg.bytes.length - 64 * (msg.bytes.length / 64) := length_drop
  have state : (if 0 < 64 * (msg.bytes.length / 64) then
        sha256DataBlkUpdate sha256IvInit msg.bytes (64 * (msg.bytes.length / 64))
      else sha256IvInit) = (Blocks.absorb 64 blkUpdate sha256IvInit msg.bytes).1 := by
    split_ifs with some_
    · rw [sha256DataBlkUpdate, Nat.mul_div_cancel_left _ (by decide), Blocks.absorb]
    · have zero : msg.bytes.length / 64 = 0 := by omega
      rw [Blocks.absorb, zero]
      rfl
  have mod : msg.bytes.length - 64 * (msg.bytes.length / 64) = msg.bytes.length % 64 := by omega
  have out := hashSha256OutputIv_eq room msg.bytes (8 * msg.bytes.length)
  rw [closed, ← padding_mod, ← mod, ← left] at out
  rw [hashSha256Single, if_neg (by rw [BitVec.lt_def]; omega)]
  dsimp only
  rw [size, state, ← left, hashSha256PadUpdate_eq stack _ _ List.take_length (by omega), bits]
  exact out

/-- A context that has taken in a message: the state behind its blocks, and what is left. -/
structure Holds (hashCtx : HashCtx) (message : Bytes) : Prop where
  algType : hashCtx.algType = hashAlgSha256
  totalLen : hashCtx.totalLen = .ofNat 32 message.length
  iv : hashCtx.iv = (Blocks.absorb 64 blkUpdate sha256IvInit message).1
  blkBuf : hashCtx.blkBuf.take hashCtx.bufLen =
    (Blocks.absorb 64 blkUpdate sha256IvInit message).2
  bufLen : hashCtx.bufLen = message.length % 64

/-- A context in the middle of an update: a state, the bytes that are kept, and the rest of the
message. -/
structure Pending (hashCtx : HashCtx) (msg : Bytes) (iv : Regs) (all : Bytes) : Prop where
  bufLen : hashCtx.bufLen < 64
  kept : (hashCtx.blkBuf.take hashCtx.bufLen).length = hashCtx.bufLen
  same : Blocks.absorb 64 blkUpdate hashCtx.iv
    (hashCtx.blkBuf.take hashCtx.bufLen ++ msg) = Blocks.absorb 64 blkUpdate iv all

variable {hashCtx : HashCtx} {msg all : Bytes} {iv : Regs}

theorem Pending.fillBlock (pending : Pending hashCtx msg iv all) :
    Pending (fillBlock hashCtx 64 msg).1 (fillBlock hashCtx 64 msg).2 iv all ∧
      ((fillBlock hashCtx 64 msg).1.bufLen = 0 ∨
        (fillBlock hashCtx 64 msg).1.bufLen + (fillBlock hashCtx 64 msg).2.length < 64) := by
  have small := pending.bufLen
  unfold Sha256.fillBlock
  dsimp only
  split_ifs with full
  · refine ⟨⟨Nat.zero_lt_succ _, rfl, ?_⟩, .inl rfl⟩
    have block : (hashCtx.blkBuf.take hashCtx.bufLen ++
        msg.take (64 - hashCtx.bufLen)).length = 64 := by
      rw [length_append, pending.kept, length_take_of_le full.2]
      omega
    have taken : (hashCtx.blkBuf.overwrite hashCtx.bufLen
        (msg.take (64 - hashCtx.bufLen))).take 64 =
          hashCtx.blkBuf.take hashCtx.bufLen ++ msg.take (64 - hashCtx.bufLen) := by
      rw [Bytes.overwrite, take_left' block]
    have split : hashCtx.blkBuf.take hashCtx.bufLen ++ msg =
        (hashCtx.blkBuf.take hashCtx.bufLen ++ msg.take (64 - hashCtx.bufLen)) ++
          msg.drop (64 - hashCtx.bufLen) := by
      rw [append_assoc, List.take_append_drop]
    rw [← pending.same, split, Blocks.absorb_block 64 blkUpdate (by decide) block, ← taken]
    rfl
  · exact ⟨pending, by dsimp only; omega⟩

theorem Pending.wholeBlocks {state : HashCtx × Bytes} (pending : Pending state.1 state.2 iv all)
    (either : state.1.bufLen = 0 ∨ state.1.bufLen + state.2.length < 64) :
    Pending (wholeBlocks 64 state).1 (wholeBlocks 64 state).2 iv all ∧
      (wholeBlocks 64 state).1.bufLen + (wholeBlocks 64 state).2.length < 64 := by
  unfold Sha256.wholeBlocks
  dsimp only
  split_ifs with long
  · have empty : state.1.bufLen = 0 := by omega
    have calcLen : state.2.length / 64 * 64 = 64 * (state.2.length / 64) := Nat.mul_comm _ _
    have kept : state.1.blkBuf.take state.1.bufLen = [] := by
      rw [empty, List.take_zero]
    have rest : (state.2.drop (64 * (state.2.length / 64))).length < 64 := by
      rw [length_drop]
      omega
    have same := pending.same
    rw [kept, nil_append] at same
    rw [calcLen]
    refine ⟨⟨pending.bufLen, pending.kept, ?_⟩, by dsimp only; omega⟩
    rw [kept, nil_append, Blocks.absorb_short 64 blkUpdate rest, ← same,
      sha256DataBlkUpdate, Nat.mul_div_cancel_left _ (by decide), Blocks.absorb]
  · refine ⟨pending, ?_⟩
    omega

theorem Pending.keepRest {state : HashCtx × Bytes} (pending : Pending state.1 state.2 iv all)
    (short : state.1.bufLen + state.2.length < 64) : Pending (keepRest state) [] iv all := by
  have kept := pending.kept
  unfold Sha256.keepRest
  split_ifs with some_
  · have taken : (state.1.blkBuf.overwrite state.1.bufLen state.2).take
        (state.1.bufLen + state.2.length) = state.1.blkBuf.take state.1.bufLen ++ state.2 := by
      exact take_left' (by rw [length_append, kept])
    refine ⟨short, ?_, ?_⟩
    · rw [taken, length_append, kept]
    · rw [taken, append_nil]
      exact pending.same
  · have nothing : state.2 = [] := List.length_eq_zero_iff.mp (not_not.mp some_)
    have same := pending.same
    rw [nothing] at same
    exact ⟨pending.bufLen, kept, same⟩

theorem Pending.done (pending : Pending hashCtx [] sha256IvInit all)
    (algType : hashCtx.algType = hashAlgSha256)
    (totalLen : hashCtx.totalLen = .ofNat 32 all.length) : Holds hashCtx all := by
  have same := pending.same
  have short : (hashCtx.blkBuf.take hashCtx.bufLen).length < 64 := by
    rw [pending.kept]
    exact pending.bufLen
  rw [append_nil, Blocks.absorb_short 64 blkUpdate short] at same
  have kept := congrArg Prod.snd same
  refine ⟨algType, totalLen, congrArg Prod.fst same, kept, ?_⟩
  rw [← pending.kept, ← Blocks.length_absorb 64 blkUpdate sha256IvInit all]
  exact congrArg List.length kept

theorem keepRest_frame (hashCtx : HashCtx) (msg : Bytes) :
    (keepRest (wholeBlocks 64 (fillBlock hashCtx 64 msg))).algType = hashCtx.algType ∧
      (keepRest (wholeBlocks 64 (fillBlock hashCtx 64 msg))).totalLen = hashCtx.totalLen := by
  unfold keepRest wholeBlocks fillBlock
  dsimp only
  split_ifs <;> exact ⟨rfl, rfl⟩

theorem Holds.hashCalcUpdate {message : Bytes} (holds : Holds hashCtx message) (chunk : Chunk) :
    ∃ after, hashCalcUpdate hashCtx chunk = .ok after ∧ Holds after (message ++ chunk.bytes) := by
  have small : hashCtx.bufLen < 64 := by
    rw [holds.bufLen]
    exact Nat.mod_lt _ (by decide)
  have blkLen : hashAlgGetBlklen hashCtx.algType = 64 := by
    rw [hashAlgGetBlklen, if_pos holds.algType]
    rfl
  rw [Sha256.hashCalcUpdate, blkLen]
  rw [if_neg (Nat.not_le.mpr small)]
  refine ⟨_, rfl, ?_⟩
  have kept : (hashCtx.blkBuf.take hashCtx.bufLen).length = hashCtx.bufLen := by
    rw [holds.blkBuf, Blocks.length_absorb, holds.bufLen]
  have start : Pending { hashCtx with totalLen := hashCtx.totalLen + chunk.len } chunk.bytes
      sha256IvInit (message ++ chunk.bytes) := by
    refine ⟨small, kept, ?_⟩
    rw [Blocks.absorb_append 64 blkUpdate (by decide) sha256IvInit message, ← holds.iv,
      ← holds.blkBuf]
  obtain ⟨filled, either⟩ := start.fillBlock
  obtain ⟨taken, short⟩ := filled.wholeBlocks either
  have frame := keepRest_frame { hashCtx with totalLen := hashCtx.totalLen + chunk.len } chunk.bytes
  refine (taken.keepRest short).done (frame.1.trans holds.algType) (frame.2.trans ?_)
  rw [holds.totalLen, Chunk.len, length_append, BitVec.ofNat_add]

theorem Holds.foldlM_hashCalcUpdate {message : Bytes} (holds : Holds hashCtx message)
    (chunks : List Chunk) : ∃ after, chunks.foldlM Sha256.hashCalcUpdate hashCtx = .ok after ∧
      Holds after (message ++ chunks.flatMap Chunk.bytes) := by
  induction chunks generalizing hashCtx message with
  | nil => exact ⟨hashCtx, rfl, by rwa [List.flatMap_nil, append_nil]⟩
  | cons chunk rest hypothesis =>
    obtain ⟨next, updated, holds⟩ := holds.hashCalcUpdate chunk
    obtain ⟨after, all, holds⟩ := hypothesis holds
    refine ⟨after, ?_, by rwa [List.flatMap_cons, ← append_assoc]⟩
    rw [List.foldlM_cons, updated]
    exact all

theorem holds_nil (hashCtx : HashCtx) :
    ∃ after, hashCtxInit hashCtx hashAlgSha256 = .ok after ∧ Holds after [] := by
  exact ⟨_, rfl, ⟨rfl, rfl, rfl, rfl, rfl⟩⟩

/-- What the end of a message gives: nothing when the number of bits, as it is computed, is not more
than the number of bytes, and else the digest with this number of bits. -/
theorem Holds.finish (holds : Holds hashCtx msg) (stack : Nat → BitVec 8) {outLen : Nat}
    (room : ivByteSizeSha256 ≤ outLen) : finish stack hashCtx outLen =
      if 8 * msg.length % 2 ^ 32 ≤ msg.length % 2 ^ 32 then .error .totalLen
      else .ok (Library.Sha256.digestWith (8 * msg.length % 2 ^ 32) msg) := by
  have len : hashCtx.totalLen.toNat = msg.length % 2 ^ 32 := by
    rw [holds.totalLen, BitVec.toNat_ofNat]
  have wide : (hashCtx.totalLen.setWidth 64).toNat = msg.length % 2 ^ 32 := by
    rw [BitVec.toNat_setWidth, len]
    exact Nat.mod_eq_of_lt (by omega)
  have bits : ((hashCtx.totalLen * 8).setWidth 64).toNat = 8 * msg.length % 2 ^ 32 := by
    rw [BitVec.toNat_setWidth, BitVec.toNat_mul, len, Nat.mod_mul_mod, Nat.mul_comm]
    exact Nat.mod_eq_of_lt (by omega)
  have size := Blocks.length_absorb 64 blkUpdate sha256IvInit msg
  have less := Nat.mod_lt msg.length (Nat.zero_lt_succ 63)
  rw [Sha256.finish]
  by_cases low : 8 * msg.length % 2 ^ 32 ≤ msg.length % 2 ^ 32
  · rw [if_pos low, if_pos (by rw [BitVec.le_def, bits, wide]; exact low)]
  rw [if_neg low, if_neg (by rw [BitVec.le_def, bits, wide]; exact low), holds.bufLen, ← size,
    hashSha256PadUpdate_eq stack _ _ (by rw [size, ← holds.bufLen]; exact holds.blkBuf)
      (by rw [size]; exact less), bits, holds.iv]
  have out := hashSha256OutputIv_eq room msg (8 * msg.length % 2 ^ 32)
  rw [closed, ← padding_mod, ← size] at out
  exact out

/-- The digest of the pieces is the digest of the whole, however it is computed. -/
structure Streams (stack single : Nat → BitVec 8) (hashCtx : HashCtx) (chunks : List Chunk)
    (last : Chunk) (outLen : Nat) : Prop where
  digest : hashChunks stack hashCtx chunks last outLen =
    .ok (Library.Sha256.digest (chunks.flatMap Chunk.bytes ++ last.bytes))
  single : ∀ whole : Chunk, whole.bytes = chunks.flatMap Chunk.bytes ++ last.bytes →
    hashChunks stack hashCtx chunks last outLen = hashSha256Single single whole outLen

/-- The length of a message in bits that fits into 32 bits, and is not 0. -/
def Counted (message : Bytes) : Prop :=
  0 < message.length ∧ message.length < 2 ^ 29

/-- A longer message that is not refused, and has by chance the same digest with the number of bits
that is left in 32 bits. -/
def Collides (message : Bytes) : Prop :=
  2 ^ 29 ≤ message.length ∧ message.length % 2 ^ 32 < 8 * message.length % 2 ^ 32 ∧
    Library.Sha256.digestWith (8 * message.length % 2 ^ 32) message =
      Library.Sha256.digest message

/-- For every message in every number of pieces, the digest is that of the whole message exactly
when its length in bits fits into 32 bits and is not 0, or its digest collides with that for the
length that is left in 32 bits. -/
theorem streams_iff (stack single : Nat → BitVec 8) (hashCtx : HashCtx) (chunks : List Chunk)
    (last : Chunk) {outLen : Nat} (room : ivByteSizeSha256 ≤ outLen) :
    Streams stack single hashCtx chunks last outLen ↔
      Counted (chunks.flatMap Chunk.bytes ++ last.bytes) ∨
        Collides (chunks.flatMap Chunk.bytes ++ last.bytes) := by
  obtain ⟨first, set, holds⟩ := holds_nil hashCtx
  obtain ⟨middle, updates, holds⟩ := holds.foldlM_hashCalcUpdate chunks
  obtain ⟨after, update, holds⟩ := holds.hashCalcUpdate last
  rw [nil_append] at holds
  have result : hashChunks stack hashCtx chunks last outLen = finish stack after outLen := by
    rw [hashChunks, set]
    change (chunks.foldlM hashCalcUpdate first >>= _) = _
    rw [updates]
    change hashCalcDoFinal stack middle last outLen = _
    rw [hashCalcDoFinal, update]
    rfl
  have end_ := holds.finish stack room
  generalize message : chunks.flatMap Chunk.bytes ++ last.bytes = whole at *
  have right : hashChunks stack hashCtx chunks last outLen = .ok (Library.Sha256.digest whole) ↔
      Counted whole ∨ Collides whole := by
    rw [result, end_, Counted, Collides]
    by_cases low : 8 * whole.length % 2 ^ 32 ≤ whole.length % 2 ^ 32
    · rw [if_pos low]
      refine iff_of_false (fun other => by cases other) ?_
      rintro (counted | collides)
      · omega
      · omega
    · rw [if_neg low]
      by_cases short : whole.length < 2 ^ 29
      · have bits : 8 * whole.length % 2 ^ 32 = 8 * whole.length := by omega
        rw [bits] at low ⊢
        exact iff_of_true rfl (.inl ⟨by omega, short⟩)
      constructor
      · exact fun same => .inr ⟨by omega, by omega, Except.ok.inj same⟩
      · rintro (counted | collides)
        · exact absurd counted.2 short
        · exact congrArg Except.ok collides.2.2
  constructor
  · exact fun streams => right.mp (message ▸ streams.digest)
  · intro either
    refine ⟨message.symm ▸ right.mpr either, fun other same => ?_⟩
    rw [right.mpr either, hashSha256Single_eq single other room, same, message]

def sampleCtx : HashCtx := ⟨7, 99, 5, sha256IvInit, []⟩

def sampleChunks : List Chunk := [⟨[0x61], by decide⟩, ⟨[], by decide⟩]

def sampleLast : Chunk := ⟨[0x62, 0x63], by decide⟩

theorem streams_iff_sample :
    Streams (fun _ => 1) (fun _ => 2) sampleCtx sampleChunks sampleLast 32 :=
  (streams_iff (fun _ => 1) (fun _ => 2) sampleCtx sampleChunks sampleLast (by decide)).mpr
    (.inl ⟨by decide, by decide⟩)

/-- The empty message is refused. -/
theorem empty_refused : hashChunks (fun _ => 1) sampleCtx [] ⟨[], by decide⟩ 32 = .error .totalLen ∧
      ¬Streams (fun _ => 1) (fun _ => 2) sampleCtx [] ⟨[], by decide⟩ 32 := by
  have refused : hashChunks (fun _ => 1) sampleCtx [] ⟨[], by decide⟩ 32 = .error .totalLen := by
    decide +kernel
  refine ⟨refused, fun streams => ?_⟩
  have same := streams.digest
  rw [refused] at same
  cases same

end TowerSafe.Sha256
