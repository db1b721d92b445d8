/-
This file is a small library of SHA-256: the constants as fractions of roots of primes, the message
schedule, the rounds, the padding, and the digest of a whole message.
-/

import TowerSafe.Library.Blocks

namespace TowerSafe.Library.Sha256

open List

abbrev Word := BitVec 32

/-! ### Constants -/

/-- The primes below the square of a number. -/
def primes (bound : Nat) : List Nat :=
  (List.range (bound * bound)).filter fun number =>
    decide (1 < number ∧
      ∀ divisor < bound, 1 < divisor → divisor < number → number % divisor ≠ 0)

/-- The bits of a root that are not yet known, from the highest on. -/
def rootBits (power number : Nat) : Nat → Nat → Nat
  | 0, root => root
  | bits + 1, root =>
      rootBits power number bits
        (if (root + 2 ^ bits) ^ power ≤ number then root + 2 ^ bits else root)

def fraction (power number : Nat) : Word :=
  .ofNat 32 (rootBits power (number * 2 ^ (32 * power)) 36 0)

def constants : List Word :=
  ((primes 18).take 64).map (fraction 3)

/-! ### Compression -/

@[ext]
structure Working where
  a : Word
  b : Word
  c : Word
  d : Word
  e : Word
  f : Word
  g : Word
  h : Word
  deriving DecidableEq

def Working.words (state : Working) : List Word :=
  [state.a, state.b, state.c, state.d, state.e, state.f, state.g, state.h]

/-- The fractions of the square roots of the first eight primes. -/
def initial : Working :=
  ⟨fraction 2 2, fraction 2 3, fraction 2 5, fraction 2 7, fraction 2 11, fraction 2 13,
    fraction 2 17, fraction 2 19⟩

def choose (x y z : Word) : Word := (x &&& y) ^^^ (~~~x &&& z)

def majority (x y z : Word) : Word := (x &&& y) ^^^ (x &&& z) ^^^ (y &&& z)

def upperSigma0 (x : Word) : Word := x.rotateRight 2 ^^^ x.rotateRight 13 ^^^ x.rotateRight 22

def upperSigma1 (x : Word) : Word := x.rotateRight 6 ^^^ x.rotateRight 11 ^^^ x.rotateRight 25

def lowerSigma0 (x : Word) : Word := x.rotateRight 7 ^^^ x.rotateRight 18 ^^^ x >>> 3

def lowerSigma1 (x : Word) : Word := x.rotateRight 17 ^^^ x.rotateRight 19 ^^^ x >>> 10

def bigEndian (width value : Nat) : Bytes := (Bytes.ofNat width value).reverse

def blockWords (block : Bytes) : List Word :=
  (List.range 16).map fun place => .ofNat 32 (Bytes.toNat (block.slice (4 * place) 4).reverse)

/-- The word that comes behind the words of a schedule. -/
def nextWord (words : List Word) : Word :=
  lowerSigma1 (words.getD (words.length - 2) 0) + words.getD (words.length - 7) 0 +
    lowerSigma0 (words.getD (words.length - 15) 0) + words.getD (words.length - 16) 0

/-- The words of a schedule and some more. -/
def extend : Nat → List Word → List Word
  | 0, words => words
  | count + 1, words => extend count (words ++ [nextWord words])

def schedule (block : Bytes) : List Word :=
  extend 48 (blockWords block)

/-- A round with a constant and a word. -/
def round (state : Working) (pair : Word × Word) : Working :=
  let first := state.h + upperSigma1 state.e + choose state.e state.f state.g + pair.1 + pair.2
  let second := upperSigma0 state.a + majority state.a state.b state.c
  ⟨first + second, state.a, state.b, state.c, state.d + first, state.e, state.f, state.g⟩

def Working.add (first second : Working) : Working :=
  ⟨first.a + second.a, first.b + second.b, first.c + second.c, first.d + second.d,
    first.e + second.e, first.f + second.f, first.g + second.g, first.h + second.h⟩

/-- The state behind a block. -/
def compress (state : Working) (block : Bytes) : Working :=
  state.add ((constants.zip (schedule block)).foldl round state)

theorem length_blockWords (block : Bytes) : (blockWords block).length = 16 := by
  rw [blockWords, length_map, length_range]

theorem length_extend (count : Nat) (words : List Word) :
    (extend count words).length = words.length + count := by
  induction count generalizing words with
  | zero => rfl
  | succ count hypothesis =>
    rw [extend, hypothesis, length_append, length_singleton]
    omega

theorem take_extend (count : Nat) (words : List Word) :
    (extend count words).take words.length = words := by
  induction count generalizing words with
  | zero => exact take_length
  | succ count hypothesis =>
    have more := congrArg (List.take words.length) (hypothesis (words ++ [nextWord words]))
    rw [take_take, take_left, length_append, Nat.min_eq_left (by omega)] at more
    exact more

theorem getElem_extend (count : Nat) (words : List Word) {place : Nat}
    (behind : words.length ≤ place) (inside : place < (extend count words).length) :
    (extend count words)[place] = nextWord ((extend count words).take place) := by
  induction count generalizing words with
  | zero => exact absurd inside (Nat.not_lt.mpr behind)
  | succ count hypothesis =>
    by_cases first : place = words.length
    · have same := take_extend count (words ++ [nextWord words])
      have front := take_extend (count + 1) words
      rw [length_append, length_singleton] at same
      subst first
      rw [front]
      have length : ((extend count (words ++ [nextWord words])).take (words.length + 1)).length =
          words.length + 1 := by
        rw [same, length_append, length_singleton]
      have last : ((extend count (words ++ [nextWord words])).take (words.length + 1)).get
          ⟨words.length, by omega⟩ = nextWord words := by
        simp only [same, get_eq_getElem, getElem_concat_length]
      rwa [get_eq_getElem, getElem_take] at last
    · exact hypothesis (words ++ [nextWord words])
        (by rw [length_append, length_singleton]; omega) inside

theorem length_schedule (block : Bytes) : (schedule block).length = 64 := by
  rw [schedule, length_extend, length_blockWords]

theorem take_schedule (block : Bytes) : (schedule block).take 16 = blockWords block := by
  have front := take_extend 48 (blockWords block)
  rwa [length_blockWords] at front

theorem getElem_schedule (block : Bytes) {place : Nat} (behind : 16 ≤ place)
    (inside : place < (schedule block).length) :
    (schedule block)[place] = nextWord ((schedule block).take place) :=
  getElem_extend 48 (blockWords block) (by rwa [length_blockWords]) inside

/-! ### Digests -/

/-- What is behind a message of some bytes: a bit, zeros up to the end of a block, and a number of
64 bits. -/
def padding (size bits : Nat) : Bytes :=
  0x80 :: (List.replicate ((119 - size % 64) % 64) 0 ++ bigEndian 8 bits)

/-- The digest of a message when it is said to have some number of bits. -/
def digestWith (bits : Nat) (message : Bytes) : Bytes :=
  (Blocks.absorb 64 compress initial (message ++ padding message.length bits)).1.words.flatMap
    fun word => bigEndian 4 word.toNat

def digest (message : Bytes) : Bytes :=
  digestWith (8 * message.length) message

/-- The digest of `abc`. -/
example : digest [0x61, 0x62, 0x63] =
    [0xba, 0x78, 0x16, 0xbf, 0x8f, 0x01, 0xcf, 0xea, 0x41, 0x41, 0x40, 0xde, 0x5d, 0xae, 0x22, 0x23,
      0xb0, 0x03, 0x61, 0xa3, 0x96, 0x17, 0x7a, 0x9c, 0xb4, 0x10, 0xff, 0x61, 0xf2, 0x00, 0x15,
      0xad] := by
  decide +kernel

end TowerSafe.Library.Sha256
