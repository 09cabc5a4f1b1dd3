import Mathlib.Algebra.Group.Nat.Defs
import Mathlib.Logic.Function.Iterate

/-!
Contract: the digests programs take from elsewhere, as functions that can be run.

Owns: CRC-32 and SHA-256 over byte lists.

Does not own: any property of a digest; nothing is proved about collisions.
-/

namespace CmxRdma.Lib.Digest

/-! ## CRC-32 -/

/-- One bit of the reflected CRC-32 register. -/
def crc32Shift (register : UInt32) : UInt32 :=
  if register &&& 1 = 1 then (register >>> 1) ^^^ 0xEDB88320 else register >>> 1

/-- CRC-32 with the reflected polynomial `0xEDB88320`, all ones before and
after. -/
def crc32 (bytes : List UInt8) : UInt32 :=
  bytes.foldl (fun register byte => crc32Shift^[8] (register ^^^ byte.toUInt32)) 0xFFFFFFFF ^^^
    0xFFFFFFFF

/-! ## SHA-256 -/

/-- The round constants. -/
def sha256Constants : List UInt32 :=
  [0x428a2f98, 0x71374491, 0xb5c0fbcf, 0xe9b5dba5, 0x3956c25b, 0x59f111f1, 0x923f82a4, 0xab1c5ed5,
    0xd807aa98, 0x12835b01, 0x243185be, 0x550c7dc3, 0x72be5d74, 0x80deb1fe, 0x9bdc06a7, 0xc19bf174,
    0xe49b69c1, 0xefbe4786, 0x0fc19dc6, 0x240ca1cc, 0x2de92c6f, 0x4a7484aa, 0x5cb0a9dc, 0x76f988da,
    0x983e5152, 0xa831c66d, 0xb00327c8, 0xbf597fc7, 0xc6e00bf3, 0xd5a79147, 0x06ca6351, 0x14292967,
    0x27b70a85, 0x2e1b2138, 0x4d2c6dfc, 0x53380d13, 0x650a7354, 0x766a0abb, 0x81c2c92e, 0x92722c85,
    0xa2bfe8a1, 0xa81a664b, 0xc24b8b70, 0xc76c51a3, 0xd192e819, 0xd6990624, 0xf40e3585, 0x106aa070,
    0x19a4c116, 0x1e376c08, 0x2748774c, 0x34b0bcb5, 0x391c0cb3, 0x4ed8aa4a, 0x5b9cca4f, 0x682e6ff3,
    0x748f82ee, 0x78a5636f, 0x84c87814, 0x8cc70208, 0x90befffa, 0xa4506ceb, 0xbef9a3f7, 0xc67178f2]

def rotateRight (word count : UInt32) : UInt32 := word >>> count ||| word <<< (32 - count)

/-- The eight working words of one SHA-256 compression. -/
structure Sha256State where
  a : UInt32
  b : UInt32
  c : UInt32
  d : UInt32
  e : UInt32
  f : UInt32
  g : UInt32
  h : UInt32

def Sha256State.initial : Sha256State :=
  ⟨0x6a09e667, 0xbb67ae85, 0x3c6ef372, 0xa54ff53a, 0x510e527f, 0x9b05688c, 0x1f83d9ab, 0x5be0cd19⟩

def Sha256State.round (state : Sha256State) (input : UInt32 × UInt32) : Sha256State :=
  let choice := (state.e &&& state.f) ^^^ (~~~state.e &&& state.g)
  let majority := (state.a &&& state.b) ^^^ (state.a &&& state.c) ^^^ (state.b &&& state.c)
  let first := state.h +
    (rotateRight state.e 6 ^^^ rotateRight state.e 11 ^^^ rotateRight state.e 25) + choice +
    input.1 + input.2
  let second :=
    (rotateRight state.a 2 ^^^ rotateRight state.a 13 ^^^ rotateRight state.a 22) + majority
  ⟨first + second, state.a, state.b, state.c, state.d + first, state.e, state.f, state.g⟩

def Sha256State.add (left right : Sha256State) : Sha256State :=
  ⟨left.a + right.a, left.b + right.b, left.c + right.c, left.d + right.d, left.e + right.e,
    left.f + right.f, left.g + right.g, left.h + right.h⟩

/-- Extend a schedule, newest word first, by one word. -/
def scheduleNext (words : List UInt32) : List UInt32 :=
  let older := words.getD 14 0
  let newer := words.getD 1 0
  ((rotateRight newer 17 ^^^ rotateRight newer 19 ^^^ newer >>> 10) + words.getD 6 0 +
    (rotateRight older 7 ^^^ rotateRight older 18 ^^^ older >>> 3) + words.getD 15 0) :: words

def bigEndianWord (bytes : List UInt8) : UInt32 :=
  bytes.foldl (fun word byte => word <<< 8 ||| byte.toUInt32) 0

/-- One block of 64 bytes. -/
def sha256Compress (state : Sha256State) (block : List UInt8) : Sha256State :=
  let words := (List.range 16).map fun index => bigEndianWord ((block.drop (4 * index)).take 4)
  let schedule := (scheduleNext^[48] words.reverse).reverse
  ((sha256Constants.zip schedule).foldl Sha256State.round state).add state

/-- A one bit, zeros to fill the last block, and the length in bits. -/
def sha256Pad (bytes : List UInt8) : List UInt8 :=
  bytes ++ 0x80 :: List.replicate ((119 - bytes.length % 64) % 64) 0 ++
    (List.range 8).map fun index => UInt8.ofNat (bytes.length * 8 / 256 ^ (7 - index))

/-- A word in big-endian order. -/
def wordBytes (word : UInt32) : Vector UInt8 4 :=
  #v[(word >>> 24).toUInt8, (word >>> 16).toUInt8, (word >>> 8).toUInt8, word.toUInt8]

def sha256 (bytes : List UInt8) : Vector UInt8 32 :=
  let padded := sha256Pad bytes
  let final := (List.range (padded.length / 64)).foldl
    (fun state index => sha256Compress state ((padded.drop (64 * index)).take 64)) .initial
  wordBytes final.a ++ wordBytes final.b ++ wordBytes final.c ++ wordBytes final.d ++
    wordBytes final.e ++ wordBytes final.f ++ wordBytes final.g ++ wordBytes final.h

example : (sha256 [97, 98, 99]).toList.take 4 = [0xba, 0x78, 0x16, 0xbf] := by decide +kernel

end CmxRdma.Lib.Digest
