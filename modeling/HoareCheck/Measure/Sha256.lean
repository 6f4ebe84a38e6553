/-!
# SHA-256 digests

The digest of a list of bytes, as the standard defines it: the message is
padded to blocks of sixteen words, each block is expanded to a schedule of
sixty-four words, and the schedules are compressed one after the other.
-/

namespace HoareCheck.Sha256

/-- The eight working words. -/
structure Words where
  a : UInt32
  b : UInt32
  c : UInt32
  d : UInt32
  e : UInt32
  f : UInt32
  g : UInt32
  h : UInt32

namespace Words

/-- The words before the first block. -/
def initial : Words :=
  { a := 0x6a09e667, b := 0xbb67ae85, c := 0x3c6ef372, d := 0xa54ff53a
    e := 0x510e527f, f := 0x9b05688c, g := 0x1f83d9ab, h := 0x5be0cd19 }

def add (left right : Words) : Words :=
  { a := left.a + right.a, b := left.b + right.b, c := left.c + right.c, d := left.d + right.d
    e := left.e + right.e, f := left.f + right.f, g := left.g + right.g, h := left.h + right.h }

def toList (words : Words) : List UInt32 :=
  [words.a, words.b, words.c, words.d, words.e, words.f, words.g, words.h]

end Words

/-- The constant of each round. -/
def roundConstants : List UInt32 :=
  [0x428a2f98, 0x71374491, 0xb5c0fbcf, 0xe9b5dba5, 0x3956c25b, 0x59f111f1, 0x923f82a4, 0xab1c5ed5,
   0xd807aa98, 0x12835b01, 0x243185be, 0x550c7dc3, 0x72be5d74, 0x80deb1fe, 0x9bdc06a7, 0xc19bf174,
   0xe49b69c1, 0xefbe4786, 0x0fc19dc6, 0x240ca1cc, 0x2de92c6f, 0x4a7484aa, 0x5cb0a9dc, 0x76f988da,
   0x983e5152, 0xa831c66d, 0xb00327c8, 0xbf597fc7, 0xc6e00bf3, 0xd5a79147, 0x06ca6351, 0x14292967,
   0x27b70a85, 0x2e1b2138, 0x4d2c6dfc, 0x53380d13, 0x650a7354, 0x766a0abb, 0x81c2c92e, 0x92722c85,
   0xa2bfe8a1, 0xa81a664b, 0xc24b8b70, 0xc76c51a3, 0xd192e819, 0xd6990624, 0xf40e3585, 0x106aa070,
   0x19a4c116, 0x1e376c08, 0x2748774c, 0x34b0bcb5, 0x391c0cb3, 0x4ed8aa4a, 0x5b9cca4f, 0x682e6ff3,
   0x748f82ee, 0x78a5636f, 0x84c87814, 0x8cc70208, 0x90befffa, 0xa4506ceb, 0xbef9a3f7, 0xc67178f2]

def rotateRight (word : UInt32) (count : UInt32) : UInt32 :=
  (word >>> count) ||| (word <<< (32 - count))

/-- The bytes of a number, the highest first. -/
def bigEndian (width value : Nat) : List UInt8 :=
  (List.range width).map fun index => (value / Nat.pow 256 (width - 1 - index)).toUInt8

/-- A message with its padding: a one bit, zeros, and the length in bits. -/
def padded (message : List UInt8) : List UInt8 :=
  let zeros := (119 - message.length % 64) % 64
  message ++ 0x80 :: List.replicate zeros 0 ++ bigEndian 8 (8 * message.length)

/-- The words of a list of bytes; fewer than four bytes at the end are left
out. -/
def wordsOf : List UInt8 → List UInt32
  | first :: second :: third :: fourth :: rest =>
    ((first.toUInt32 <<< 24) ||| (second.toUInt32 <<< 16) ||| (third.toUInt32 <<< 8) |||
      fourth.toUInt32) :: wordsOf rest
  | _ => []

/-- The next word of a schedule, whose last sixteen words are given, the latest
first. -/
def nextWord (latest : List UInt32) : UInt32 :=
  let back (distance : Nat) : UInt32 := (latest[distance - 1]?).getD 0
  let low := rotateRight (back 15) 7 ^^^ rotateRight (back 15) 18 ^^^ (back 15 >>> 3)
  let high := rotateRight (back 2) 17 ^^^ rotateRight (back 2) 19 ^^^ (back 2 >>> 10)
  back 16 + low + back 7 + high

/-- The schedule of a block of sixteen words. -/
def schedule (block : List UInt32) : List UInt32 :=
  let extend (latest : List UInt32) (_ : Nat) := nextWord latest :: latest
  ((List.range 48).foldl extend block.reverse).reverse

/-- One round, with the sum of its constant and its word. -/
def round (words : Words) (addend : UInt32) : Words :=
  let high := rotateRight words.e 6 ^^^ rotateRight words.e 11 ^^^ rotateRight words.e 25
  let choice := (words.e &&& words.f) ^^^ ((~~~words.e) &&& words.g)
  let first := words.h + high + choice + addend
  let low := rotateRight words.a 2 ^^^ rotateRight words.a 13 ^^^ rotateRight words.a 22
  let majority := (words.a &&& words.b) ^^^ (words.a &&& words.c) ^^^ (words.b &&& words.c)
  { a := first + (low + majority), b := words.a, c := words.b, d := words.c
    e := words.d + first, f := words.e, g := words.f, h := words.g }

def compress (words : Words) (block : List UInt32) : Words :=
  words.add ((List.zipWith (· + ·) roundConstants (schedule block)).foldl round words)

/-- Compresses the words of a message block by block. -/
def compressAll (words : Words) (message : List UInt32) : Words :=
  if message.isEmpty then
    words
  else
    compressAll (compress words (message.take 16)) (message.drop 16)
termination_by message.length
decreasing_by
  cases message with
  | nil => simp_all
  | cons first rest =>
    simp only [List.length_drop, List.length_cons]
    omega

/-- The digest of a message. -/
def digest (message : List UInt8) : List UInt8 :=
  (compressAll .initial (wordsOf (padded message))).toList.flatMap fun word =>
    bigEndian 4 word.toNat

end HoareCheck.Sha256
