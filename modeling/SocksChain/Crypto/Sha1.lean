import SocksChain.Crypto.Padding

/-!
SHA-1, and keyed hashing and key expansion over it. A derived key has the length that was asked
for, whatever the secret, the salt and the purpose are.
-/

namespace SocksChain.Crypto.Sha1

structure State where
  a : UInt32
  b : UInt32
  c : UInt32
  d : UInt32
  e : UInt32

def initial : State := ⟨0x67452301, 0xefcdab89, 0x98badcfe, 0x10325476, 0xc3d2e1f0⟩

/-- The sixteen words of a block and the sixty-four that follow from them. -/
def schedule (block : Bytes) : Array UInt32 :=
  (List.range 64).foldl
    (fun w t =>
      w.push (rotl (w.getD (t + 13) 0 ^^^ w.getD (t + 8) 0 ^^^ w.getD (t + 2) 0 ^^^ w.getD t 0) 1))
    (bigWords block).toArray

/-- The mixing function and the constant of round `t`. -/
def mix (t : Nat) (b c d : UInt32) : UInt32 × UInt32 :=
  if t < 20 then ((b &&& c) ||| (~~~b &&& d), 0x5a827999)
  else if t < 40 then (b ^^^ c ^^^ d, 0x6ed9eba1)
  else if t < 60 then ((b &&& c) ||| (b &&& d) ||| (c &&& d), 0x8f1bbcdc)
  else (b ^^^ c ^^^ d, 0xca62c1d6)

def round (s : State) (t : Nat) (w : UInt32) : State :=
  let (f, k) := mix t s.b s.c s.d
  ⟨rotl s.a 5 + f + s.e + k + w, s.a, rotl s.b 30, s.c, s.d⟩

def compress (s : State) (block : Bytes) : State :=
  let r := (schedule block).toList.zipIdx.foldl (fun r wt => round r wt.2 wt.1) s
  ⟨s.a + r.a, s.b + r.b, s.c + r.c, s.d + r.d, s.e + r.e⟩

def State.digest (s : State) : Bytes := [s.a, s.b, s.c, s.d, s.e].flatMap bigBytes

/-- The digest of a message, 20 bytes. -/
def hash (m : Bytes) : Bytes := ((blocks (Bytes.bigEndian 8) m).foldl compress initial).digest

@[simp] theorem length_hash (m : Bytes) : (hash m).length = 20 := by
  simp [hash, State.digest, bigBytes]

/-- A key as one block: hashed when it is longer, and filled with zeros. -/
def blockKey (key : Bytes) : Bytes :=
  let k := if key.length ≤ 64 then key else hash key
  k ++ Bytes.zeros (64 - k.length)

/-- The digest of a message under a key. -/
def hmac (key message : Bytes) : Bytes :=
  let k := blockKey key
  hash (k.map (· ^^^ 0x5c) ++ hash (k.map (· ^^^ 0x36) ++ message))

@[simp] theorem length_hmac (key message : Bytes) : (hmac key message).length = 20 := by
  simp [hmac]

/-- The first `n` blocks of the expansion of `key` for `info`, each made from the one before. -/
def expandBlocks (key info previous : Bytes) (index : UInt8) : Nat → Bytes
  | 0 => []
  | n + 1 =>
    let block := hmac key (previous ++ info ++ [index])
    block ++ expandBlocks key info block (index + 1) n

/-- `size` bytes derived from `secret` under `salt` for the purpose `info`. -/
def derive (secret salt info : Bytes) (size : Nat) : Bytes :=
  (expandBlocks (hmac salt secret) info [] 1 ((size + 19) / 20)).take size

theorem length_expandBlocks (key info previous : Bytes) (index : UInt8) (n : Nat) :
    (expandBlocks key info previous index n).length = 20 * n := by
  induction n generalizing previous index with
  | zero => rfl
  | succ n ih =>
    simp only [expandBlocks, List.length_append, length_hmac, ih]
    omega

@[simp] theorem length_derive (secret salt info : Bytes) (size : Nat) :
    (derive secret salt info size).length = size := by
  simp only [derive, List.length_take, length_expandBlocks]
  omega

end SocksChain.Crypto.Sha1
