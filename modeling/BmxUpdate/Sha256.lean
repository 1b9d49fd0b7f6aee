import BmxUpdate.Journal

/-!
# SHA-256

The hash function of the updater (`sha256.cpp`).  The installer's results hold
for any hash function; this is the one it is run with.

The 32-bit words of the source are natural numbers below `2 ^ 32`: sums are
reduced, and a complement is a subtraction from the largest word.
-/

namespace BmxUpdate

open Wire

namespace Sha256

/-- `uint32_t` -/
abbrev Word := Nat

/-- The number of words. -/
def wordModulus : Nat := 4294967296

/-- `RotateRight` -/
def rotateRight (value : Word) (count : Nat) : Word :=
  value >>> count ||| (value <<< (32 - count)) % wordModulus

/-- `LoadBigEndian32` of the next four bytes. -/
def loadBigEndian32 (input : Bytes) : Word :=
  (input.take 4).foldl (fun value byte => value <<< 8 ||| byte.toNat) 0

/-- `StoreBigEndian32` -/
def storeBigEndian32 (value : Word) : Bytes :=
  [value >>> 24, value >>> 16, value >>> 8, value].map UInt8.ofNat

def kRoundConstants : List Word :=
  [0x428a2f98, 0x71374491, 0xb5c0fbcf, 0xe9b5dba5, 0x3956c25b, 0x59f111f1, 0x923f82a4,
    0xab1c5ed5, 0xd807aa98, 0x12835b01, 0x243185be, 0x550c7dc3, 0x72be5d74, 0x80deb1fe,
    0x9bdc06a7, 0xc19bf174, 0xe49b69c1, 0xefbe4786, 0x0fc19dc6, 0x240ca1cc, 0x2de92c6f,
    0x4a7484aa, 0x5cb0a9dc, 0x76f988da, 0x983e5152, 0xa831c66d, 0xb00327c8, 0xbf597fc7,
    0xc6e00bf3, 0xd5a79147, 0x06ca6351, 0x14292967, 0x27b70a85, 0x2e1b2138, 0x4d2c6dfc,
    0x53380d13, 0x650a7354, 0x766a0abb, 0x81c2c92e, 0x92722c85, 0xa2bfe8a1, 0xa81a664b,
    0xc24b8b70, 0xc76c51a3, 0xd192e819, 0xd6990624, 0xf40e3585, 0x106aa070, 0x19a4c116,
    0x1e376c08, 0x2748774c, 0x34b0bcb5, 0x391c0cb3, 0x4ed8aa4a, 0x5b9cca4f, 0x682e6ff3,
    0x748f82ee, 0x78a5636f, 0x84c87814, 0x8cc70208, 0x90befffa, 0xa4506ceb, 0xbef9a3f7,
    0xc67178f2]

/-- `state_` -/
structure HashState where
  a : Word
  b : Word
  c : Word
  d : Word
  e : Word
  f : Word
  g : Word
  h : Word
deriving DecidableEq

/-- `Reset` -/
def HashState.initial : HashState :=
  ⟨0x6a09e667, 0xbb67ae85, 0x3c6ef372, 0xa54ff53a, 0x510e527f, 0x9b05688c, 0x1f83d9ab,
    0x5be0cd19⟩

/-- The first sixteen words of a block. -/
def blockWords : Nat → Bytes → List Word
  | 0, _ => []
  | n + 1, block => loadBigEndian32 block :: blockWords n (block.drop 4)

/-- The words of the message schedule after the first sixteen; the arguments are
the last sixteen words so far, oldest first. -/
def scheduleWords : Nat → List Word → List Word
  | n + 1, w0 :: w1 :: w2 :: w3 :: w4 :: w5 :: w6 :: w7 :: w8 :: w9 :: rest@(_ :: _ :: _ :: _ ::
      w14 :: _) =>
      let s0 := rotateRight w1 7 ^^^ rotateRight w1 18 ^^^ w1 >>> 3
      let s1 := rotateRight w14 17 ^^^ rotateRight w14 19 ^^^ w14 >>> 10
      let next := (w0 + s0 + w9 + s1) % wordModulus
      next :: scheduleWords n (w1 :: w2 :: w3 :: w4 :: w5 :: w6 :: w7 :: w8 :: w9 ::
        (rest ++ [next]))
  | _, _ => []

/-- One turn of the round loop of `Transform`. -/
def round (s : HashState) (word constant : Word) : HashState :=
  let sum1 := rotateRight s.e 6 ^^^ rotateRight s.e 11 ^^^ rotateRight s.e 25
  let choice := (s.e &&& s.f) ^^^ ((wordModulus - 1 - s.e) &&& s.g)
  let temporary1 := s.h + sum1 + choice + constant + word
  let sum0 := rotateRight s.a 2 ^^^ rotateRight s.a 13 ^^^ rotateRight s.a 22
  let majority := (s.a &&& s.b) ^^^ (s.a &&& s.c) ^^^ (s.b &&& s.c)
  ⟨(temporary1 + (sum0 + majority)) % wordModulus, s.a, s.b, s.c,
    (s.d + temporary1) % wordModulus, s.e, s.f, s.g⟩

/-- The round loop of `Transform`. -/
def rounds : HashState → List Word → List Word → HashState
  | s, word :: words, constant :: constants => rounds (round s word constant) words constants
  | s, _, _ => s

/-- `Transform` -/
def transform (s : HashState) (block : Bytes) : HashState :=
  let front := blockWords 16 block
  let r := rounds s (front ++ scheduleWords 48 front) kRoundConstants
  ⟨(s.a + r.a) % wordModulus, (s.b + r.b) % wordModulus, (s.c + r.c) % wordModulus,
    (s.d + r.d) % wordModulus, (s.e + r.e) % wordModulus, (s.f + r.f) % wordModulus,
    (s.g + r.g) % wordModulus, (s.h + r.h) % wordModulus⟩

/-- The blocks of a padded message, transformed in order. -/
def transformBlocks : Nat → HashState → Bytes → HashState
  | 0, s, _ => s
  | n + 1, s, message => transformBlocks n (transform s (message.take 64)) (message.drop 64)

/-- The padding `Final` adds: a one bit, zeros up to 56 bytes modulo 64, and the
length in bits. -/
def padding (length : Nat) : Bytes :=
  0x80 :: List.replicate ((119 - length % 64) % 64) 0 ++ (encodeLe 8 (length * 8)).reverse

/-- The words of the state, most significant byte first. -/
def HashState.bytes (s : HashState) : Bytes :=
  [s.a, s.b, s.c, s.d, s.e, s.f, s.g, s.h].flatMap storeBigEndian32

end Sha256

/-- `Sha256` over a whole message. -/
def sha256 (message : Bytes) : Digest :=
  let padded := message ++ Sha256.padding message.length
  .ofBytes 32 (Sha256.transformBlocks (padded.length / 64) .initial padded).bytes

example : (sha256 []).bytes.take 4 = [0xe3, 0xb0, 0xc4, 0x42] := by decide

end BmxUpdate
