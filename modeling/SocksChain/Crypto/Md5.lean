import SocksChain.Crypto.Padding

/-!
MD5. A message is padded to whole blocks, every block is worked into four words by sixty-four
steps, and the words are the digest, the low byte of each first.
-/

namespace SocksChain.Crypto.Md5

structure State where
  a : UInt32
  b : UInt32
  c : UInt32
  d : UInt32

def initial : State := ⟨0x67452301, 0xefcdab89, 0x98badcfe, 0x10325476⟩

/-- The constants of the sixty-four steps. -/
def constants : List UInt32 :=
  [0xd76aa478, 0xe8c7b756, 0x242070db, 0xc1bdceee, 0xf57c0faf, 0x4787c62a, 0xa8304613, 0xfd469501,
   0x698098d8, 0x8b44f7af, 0xffff5bb1, 0x895cd7be, 0x6b901122, 0xfd987193, 0xa679438e, 0x49b40821,
   0xf61e2562, 0xc040b340, 0x265e5a51, 0xe9b6c7aa, 0xd62f105d, 0x02441453, 0xd8a1e681, 0xe7d3fbc8,
   0x21e1cde6, 0xc33707d6, 0xf4d50d87, 0x455a14ed, 0xa9e3e905, 0xfcefa3f8, 0x676f02d9, 0x8d2a4c8a,
   0xfffa3942, 0x8771f681, 0x6d9d6122, 0xfde5380c, 0xa4beea44, 0x4bdecfa9, 0xf6bb4b60, 0xbebfbc70,
   0x289b7ec6, 0xeaa127fa, 0xd4ef3085, 0x04881d05, 0xd9d4d039, 0xe6db99e5, 0x1fa27cf8, 0xc4ac5665,
   0xf4292244, 0x432aff97, 0xab9423a7, 0xfc93a039, 0x655b59c3, 0x8f0ccc92, 0xffeff47d, 0x85845dd1,
   0x6fa87e4f, 0xfe2ce6e0, 0xa3014314, 0x4e0811a1, 0xf7537e82, 0xbd3af235, 0x2ad7d2bb, 0xeb86d391]

/-- The mixing function, the word used and the rotation of step `t`. -/
def mix (t : Nat) (b c d : UInt32) : UInt32 × Nat × UInt32 :=
  let pick (l : List UInt32) : UInt32 := l.getD (t % 4) 0
  if t < 16 then ((b &&& c) ||| (~~~b &&& d), t, pick [7, 12, 17, 22])
  else if t < 32 then ((d &&& b) ||| (~~~d &&& c), (5 * t + 1) % 16, pick [5, 9, 14, 20])
  else if t < 48 then (b ^^^ c ^^^ d, (3 * t + 5) % 16, pick [4, 11, 16, 23])
  else (c ^^^ (b ||| ~~~d), (7 * t) % 16, pick [6, 10, 15, 21])

def step (words : Array UInt32) (s : State) (t : Nat) (k : UInt32) : State :=
  let (f, g, r) := mix t s.b s.c s.d
  ⟨s.d, s.b + rotl (s.a + f + k + words.getD g 0) r, s.b, s.c⟩

def compress (s : State) (block : Bytes) : State :=
  let words := (littleWords block).toArray
  let r := constants.zipIdx.foldl (fun r kt => step words r kt.2 kt.1) s
  ⟨s.a + r.a, s.b + r.b, s.c + r.c, s.d + r.d⟩

def State.digest (s : State) : Bytes := [s.a, s.b, s.c, s.d].flatMap littleBytes

/-- The digest of a message, 16 bytes. -/
def hash (m : Bytes) : Bytes := ((blocks (Bytes.littleEndian 8) m).foldl compress initial).digest

@[simp] theorem length_hash (m : Bytes) : (hash m).length = 16 := by
  simp [hash, State.digest, littleBytes]

end SocksChain.Crypto.Md5
