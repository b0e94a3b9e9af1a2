import AccelFirmware.Text.Numeral

/-!
# Digests of text

The SHA-256 digest of a text in UTF-8, as FIPS 180-4 defines it, written in lower-case hexadecimal. The message is padded
to blocks of sixteen words; every block changes a state of eight words in sixty-four rounds.
-/

namespace AccelFirmware

namespace Digest

/-! ## Constants -/

/-- A word of every round: the fractional parts of the cube roots of the first sixty-four primes. -/
def roundWords : List UInt32 :=
  [0x428a2f98, 0x71374491, 0xb5c0fbcf, 0xe9b5dba5, 0x3956c25b, 0x59f111f1, 0x923f82a4, 0xab1c5ed5,
   0xd807aa98, 0x12835b01, 0x243185be, 0x550c7dc3, 0x72be5d74, 0x80deb1fe, 0x9bdc06a7, 0xc19bf174,
   0xe49b69c1, 0xefbe4786, 0x0fc19dc6, 0x240ca1cc, 0x2de92c6f, 0x4a7484aa, 0x5cb0a9dc, 0x76f988da,
   0x983e5152, 0xa831c66d, 0xb00327c8, 0xbf597fc7, 0xc6e00bf3, 0xd5a79147, 0x06ca6351, 0x14292967,
   0x27b70a85, 0x2e1b2138, 0x4d2c6dfc, 0x53380d13, 0x650a7354, 0x766a0abb, 0x81c2c92e, 0x92722c85,
   0xa2bfe8a1, 0xa81a664b, 0xc24b8b70, 0xc76c51a3, 0xd192e819, 0xd6990624, 0xf40e3585, 0x106aa070,
   0x19a4c116, 0x1e376c08, 0x2748774c, 0x34b0bcb5, 0x391c0cb3, 0x4ed8aa4a, 0x5b9cca4f, 0x682e6ff3,
   0x748f82ee, 0x78a5636f, 0x84c87814, 0x8cc70208, 0x90befffa, 0xa4506ceb, 0xbef9a3f7, 0xc67178f2]

structure State where
  a : UInt32
  b : UInt32
  c : UInt32
  d : UInt32
  e : UInt32
  f : UInt32
  g : UInt32
  h : UInt32
  deriving DecidableEq, Repr

namespace State

/-- The fractional parts of the square roots of the first eight primes. -/
def initial : State :=
  ⟨0x6a09e667, 0xbb67ae85, 0x3c6ef372, 0xa54ff53a, 0x510e527f, 0x9b05688c, 0x1f83d9ab, 0x5be0cd19⟩

def add (s t : State) : State :=
  ⟨s.a + t.a, s.b + t.b, s.c + t.c, s.d + t.d, s.e + t.e, s.f + t.f, s.g + t.g, s.h + t.h⟩

def words (s : State) : List UInt32 := [s.a, s.b, s.c, s.d, s.e, s.f, s.g, s.h]

end State

/-! ## Rounds -/

def rotate (x n : UInt32) : UInt32 := (x >>> n) ||| (x <<< (32 - n))

def choose (e f g : UInt32) : UInt32 := (e &&& f) ^^^ (~~~e &&& g)

/-- The bits set in at least two of three words. -/
def majority (a b c : UInt32) : UInt32 := (a &&& b) ^^^ (a &&& c) ^^^ (b &&& c)

def round (s : State) (x : UInt32) : State :=
  let t := s.h + (rotate s.e 6 ^^^ rotate s.e 11 ^^^ rotate s.e 25) + choose s.e s.f s.g + x
  let u := (rotate s.a 2 ^^^ rotate s.a 13 ^^^ rotate s.a 22) + majority s.a s.b s.c
  ⟨t + u, s.a, s.b, s.c, s.d + t, s.e, s.f, s.g⟩

def nextWord (window : List UInt32) : UInt32 :=
  let x := window.getD 1 0
  let y := window.getD 14 0
  window.headD 0 + (rotate x 7 ^^^ rotate x 18 ^^^ (x >>> 3)) + window.getD 9 0
    + (rotate y 17 ^^^ rotate y 19 ^^^ (y >>> 10))

/-- Runs the rounds of some constants, from a window of sixteen words of the schedule. -/
def rounds : List UInt32 → List UInt32 → State → State
  | [], _, s => s
  | k :: ks, window, s =>
      rounds ks (window.drop 1 ++ [nextWord window]) (round s (k + window.headD 0))

def compress (s : State) (block : List UInt32) : State :=
  s.add (rounds roundWords block s)

def absorb (s : State) (message : List UInt32) : State :=
  if _h : message = [] then s
  else absorb (compress s (message.take 16)) (message.drop 16)
termination_by message.length
decreasing_by
  have := List.length_pos_iff.2 ‹message ≠ []›
  simp only [List.length_drop]
  omega

/-! ## Messages -/

/-- The last `count` bytes of a number, most significant first. -/
def bytesOf : Nat → Nat → List UInt8
  | 0, _ => []
  | count + 1, n => bytesOf count (n / 256) ++ [UInt8.ofNat n]

/-- What follows a message of some length: a set bit, zeros up to a full block, and the length in bits. -/
def padding (length : Nat) : List UInt8 :=
  0x80 :: List.replicate ((119 - length % 64) % 64) 0 ++ bytesOf 8 (8 * length)

/-- Words of four bytes, most significant first. -/
def wordsOf : List UInt8 → List UInt32
  | a :: b :: c :: d :: rest =>
      ((a.toUInt32 <<< 24) ||| (b.toUInt32 <<< 16) ||| (c.toUInt32 <<< 8) ||| d.toUInt32) :: wordsOf rest
  | _ => []

def ofBytes (bytes : List UInt8) : State :=
  absorb .initial (wordsOf (bytes ++ padding bytes.length))

end Digest

/-- The SHA-256 digest of a text, sixty-four digits. -/
def digest (text : String) : String :=
  String.join ((Digest.ofBytes text.toUTF8.toList).words.map fun w => hexWide 8 w.toNat)

end AccelFirmware
