/-!
The MD5 digest of a text in UTF-8, written as thirty-two hexadecimal digits.
-/

namespace ScopedCss.Md5

structure State where
  a : UInt32
  b : UInt32
  c : UInt32
  d : UInt32

def State.initial : State where
  a := 0x67452301
  b := 0xefcdab89
  c := 0x98badcfe
  d := 0x10325476

def State.add (s t : State) : State where
  a := s.a + t.a
  b := s.b + t.b
  c := s.c + t.c
  d := s.d + t.d

/-- The integer parts of `2 ^ 32 * |sin (i + 1)|`. -/
def sines : Array UInt32 :=
  #[
    0xd76aa478, 0xe8c7b756, 0x242070db, 0xc1bdceee, 0xf57c0faf, 0x4787c62a, 0xa8304613, 0xfd469501,
    0x698098d8, 0x8b44f7af, 0xffff5bb1, 0x895cd7be, 0x6b901122, 0xfd987193, 0xa679438e, 0x49b40821,
    0xf61e2562, 0xc040b340, 0x265e5a51, 0xe9b6c7aa, 0xd62f105d, 0x02441453, 0xd8a1e681, 0xe7d3fbc8,
    0x21e1cde6, 0xc33707d6, 0xf4d50d87, 0x455a14ed, 0xa9e3e905, 0xfcefa3f8, 0x676f02d9, 0x8d2a4c8a,
    0xfffa3942, 0x8771f681, 0x6d9d6122, 0xfde5380c, 0xa4beea44, 0x4bdecfa9, 0xf6bb4b60, 0xbebfbc70,
    0x289b7ec6, 0xeaa127fa, 0xd4ef3085, 0x04881d05, 0xd9d4d039, 0xe6db99e5, 0x1fa27cf8, 0xc4ac5665,
    0xf4292244, 0x432aff97, 0xab9423a7, 0xfc93a039, 0x655b59c3, 0x8f0ccc92, 0xffeff47d, 0x85845dd1,
    0x6fa87e4f, 0xfe2ce6e0, 0xa3014314, 0x4e0811a1, 0xf7537e82, 0xbd3af235, 0x2ad7d2bb, 0xeb86d391]

def shifts : Array UInt32 :=
  #[7, 12, 17, 22, 5, 9, 14, 20, 4, 11, 16, 23, 6, 10, 15, 21]

def rotateLeft (x : UInt32) (n : UInt32) : UInt32 :=
  (x <<< n) ||| (x >>> (32 - n))

/-- The mixing function of round `i / 16`, and the word of the block that it takes. -/
def mix (s : State) (i : Nat) : UInt32 × Nat :=
  match i / 16 with
  | 0 => ((s.b &&& s.c) ||| (~~~s.b &&& s.d), i)
  | 1 => ((s.d &&& s.b) ||| (~~~s.d &&& s.c), (5 * i + 1) % 16)
  | 2 => (s.b ^^^ s.c ^^^ s.d, (3 * i + 5) % 16)
  | _ => (s.c ^^^ (s.b ||| ~~~s.d), 7 * i % 16)

def step (block : Array UInt32) (s : State) (i : Nat) : State :=
  let (f, word) := mix s i
  let sum := s.a + f + sines.getD i 0 + block.getD word 0
  { a := s.d
    b := s.b + rotateLeft sum (shifts.getD (4 * (i / 16) + i % 4) 0)
    c := s.b
    d := s.c }

def compress (s : State) (block : Array UInt32) : State :=
  s.add ((List.range 64).foldl (step block) s)

/-- The low `n` bytes of a number, the lowest first. -/
def littleEndian (n : Nat) (x : Nat) : List UInt8 :=
  (List.range n).map fun i => (x >>> (8 * i)).toUInt8

/-- One bit, zeros, and the length in bits, up to a multiple of sixty-four bytes. -/
def padding (size : Nat) : List UInt8 :=
  0x80 :: List.replicate ((119 - size % 64) % 64) 0 ++ littleEndian 8 (8 * size)

def toWords : List UInt8 → List UInt32
  | a :: b :: c :: d :: rest =>
    (a.toUInt32 ||| (b.toUInt32 <<< 8) ||| (c.toUInt32 <<< 16) ||| (d.toUInt32 <<< 24)) ::
      toWords rest
  | _ => []

/-- Blocks of sixteen words each. -/
def toBlocks (words : Array UInt32) : List (Array UInt32) :=
  (List.range (words.size / 16)).map fun i => words.extract (16 * i) (16 * i + 16)

def digest (bytes : List UInt8) : List UInt8 :=
  let words := toWords (bytes ++ padding bytes.length)
  let s := (toBlocks words.toArray).foldl compress .initial
  [s.a, s.b, s.c, s.d].flatMap fun w => littleEndian 4 w.toNat

def hexDigits (b : UInt8) : List Char :=
  [Nat.digitChar (b.toNat / 16), Nat.digitChar (b.toNat % 16)]

theorem length_digest (bytes : List UInt8) : (digest bytes).length = 16 := by
  simp [digest, littleEndian]

end ScopedCss.Md5

namespace ScopedCss

/-- The fingerprint of a text: its MD5 digest in hexadecimal. -/
def fingerprint (text : String) : String :=
  .ofList ((Md5.digest text.toUTF8.toList).flatMap Md5.hexDigits)

end ScopedCss
