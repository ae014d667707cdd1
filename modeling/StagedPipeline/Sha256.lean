import StagedPipeline.Bytes

/-!
# SHA-256

The hash of a message: the message is padded to whole blocks of 64 bytes, and a
compression function folds the blocks into eight words. `hash` is that rule read
off the padded message; the module on hashers computes it piece by piece.
-/
namespace StagedPipeline.Sha256

/-- Eight 32-bit words: a chaining value, or the working variables of a block. -/
structure Words where
  a : UInt32
  b : UInt32
  c : UInt32
  d : UInt32
  e : UInt32
  f : UInt32
  g : UInt32
  h : UInt32
deriving DecidableEq, Repr

/-- The chaining value before the first block. -/
def initial : Words where
  a := 0x6a09e667
  b := 0xbb67ae85
  c := 0x3c6ef372
  d := 0xa54ff53a
  e := 0x510e527f
  f := 0x9b05688c
  g := 0x1f83d9ab
  h := 0x5be0cd19

/-- The constants of the 64 rounds. -/
def constants : List UInt32 :=
  [0x428a2f98, 0x71374491, 0xb5c0fbcf, 0xe9b5dba5, 0x3956c25b, 0x59f111f1, 0x923f82a4, 0xab1c5ed5,
    0xd807aa98, 0x12835b01, 0x243185be, 0x550c7dc3, 0x72be5d74, 0x80deb1fe, 0x9bdc06a7, 0xc19bf174,
    0xe49b69c1, 0xefbe4786, 0x0fc19dc6, 0x240ca1cc, 0x2de92c6f, 0x4a7484aa, 0x5cb0a9dc, 0x76f988da,
    0x983e5152, 0xa831c66d, 0xb00327c8, 0xbf597fc7, 0xc6e00bf3, 0xd5a79147, 0x06ca6351, 0x14292967,
    0x27b70a85, 0x2e1b2138, 0x4d2c6dfc, 0x53380d13, 0x650a7354, 0x766a0abb, 0x81c2c92e, 0x92722c85,
    0xa2bfe8a1, 0xa81a664b, 0xc24b8b70, 0xc76c51a3, 0xd192e819, 0xd6990624, 0xf40e3585, 0x106aa070,
    0x19a4c116, 0x1e376c08, 0x2748774c, 0x34b0bcb5, 0x391c0cb3, 0x4ed8aa4a, 0x5b9cca4f, 0x682e6ff3,
    0x748f82ee, 0x78a5636f, 0x84c87814, 0x8cc70208, 0x90befffa, 0xa4506ceb, 0xbef9a3f7, 0xc67178f2]

/-- Rotation to the right. -/
def rotate (x n : UInt32) : UInt32 := (x >>> n) ||| (x <<< (32 - n))

def bigSigma0 (x : UInt32) : UInt32 := rotate x 2 ^^^ rotate x 13 ^^^ rotate x 22
def bigSigma1 (x : UInt32) : UInt32 := rotate x 6 ^^^ rotate x 11 ^^^ rotate x 25
def smallSigma0 (x : UInt32) : UInt32 := rotate x 7 ^^^ rotate x 18 ^^^ (x >>> 3)
def smallSigma1 (x : UInt32) : UInt32 := rotate x 17 ^^^ rotate x 19 ^^^ (x >>> 10)
def choose (x y z : UInt32) : UInt32 := (x &&& y) ^^^ (~~~x &&& z)
def majority (x y z : UInt32) : UInt32 := (x &&& y) ^^^ (x &&& z) ^^^ (y &&& z)

namespace Words

/-- One round, for a round constant and a word of the message schedule. -/
def round (s : Words) (k w : UInt32) : Words :=
  let t1 := s.h + bigSigma1 s.e + choose s.e s.f s.g + k + w
  let t2 := bigSigma0 s.a + majority s.a s.b s.c
  ⟨t1 + t2, s.a, s.b, s.c, s.d + t1, s.e, s.f, s.g⟩

/-- Sums word by word. -/
def add (s t : Words) : Words :=
  ⟨s.a + t.a, s.b + t.b, s.c + t.c, s.d + t.d, s.e + t.e, s.f + t.f, s.g + t.g, s.h + t.h⟩

def toList (s : Words) : List UInt32 := [s.a, s.b, s.c, s.d, s.e, s.f, s.g, s.h]

end Words

/-- The big-endian word of four bytes. -/
def wordOf (a b c d : UInt8) : UInt32 :=
  (a.toUInt32 <<< 24) ||| (b.toUInt32 <<< 16) ||| (c.toUInt32 <<< 8) ||| d.toUInt32

/-- The words of a block. -/
def wordsOf : Bytes → List UInt32
  | a :: b :: c :: d :: rest => wordOf a b c d :: wordsOf rest
  | _ => []

/-- The message schedule, held as a window of sixteen words, moved on by one. -/
def advance (window : List UInt32) : List UInt32 :=
  window.drop 1 ++
    [smallSigma1 (window.getD 14 0) + window.getD 9 0
      + smallSigma0 (window.getD 1 0) + window.getD 0 0]

/-- Folds one block into a chaining value. -/
def compress (s : Words) (block : Bytes) : Words :=
  let (t, _) := constants.foldl
    (fun (t, window) k => (t.round k (window.headD 0), advance window)) (s, wordsOf block)
  s.add t

/-- The eight bytes of a 64-bit number, most significant first. -/
def bigEndian64 (n : Nat) : Bytes :=
  [56, 48, 40, 32, 24, 16, 8, 0].map fun shift => (n >>> shift).toUInt8

/-- What follows a message of `n` bytes: a one bit, zeros up to eight bytes before
the end of a block, and the number of bits. -/
def padding (n : Nat) : Bytes :=
  128 :: List.replicate ((119 - n % 64) % 64) 0 ++ bigEndian64 (8 * n)

/-- The whole blocks of a text. There is one more if something stands behind 63 bytes. -/
def blocks (m : Bytes) : List Bytes :=
  if (m.drop 63).isEmpty then [] else m.take 64 :: blocks (m.drop 64)
termination_by m.length
decreasing_by
  simp only [List.isEmpty_iff, List.drop_eq_nil_iff, List.length_drop] at *
  omega

/-- The bytes of a chaining value. -/
def Words.toBytes (s : Words) : Bytes :=
  s.toList.flatMap fun (w : UInt32) =>
    [(w >>> 24).toUInt8, (w >>> 16).toUInt8, (w >>> 8).toUInt8, w.toUInt8]

/-- The hash of a message, 32 bytes. -/
def hash (m : Bytes) : Bytes :=
  ((blocks (m ++ padding m.length)).foldl compress initial).toBytes

/-- The lower case hexadecimal digit of a number below sixteen. -/
def hexDigit (n : UInt8) : UInt8 := if n < 10 then 48 + n else 87 + n

/-- Two hexadecimal digits for each byte. -/
def toHex (digest : Bytes) : Bytes :=
  digest.flatMap fun (b : UInt8) => [hexDigit (b >>> 4), hexDigit (b &&& 15)]

theorem length_padding (n : Nat) : (n + (padding n).length) % 64 = 0 := by
  simp only [padding, List.length_append, List.length_cons, List.length_replicate, bigEndian64,
    List.length_map, List.length_nil]
  omega

end StagedPipeline.Sha256
