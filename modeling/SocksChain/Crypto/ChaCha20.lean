import SocksChain.Crypto.Padding
import SocksChain.Crypto.Aead

/-!
The ChaCha20 keystream and the Poly1305 tag, with keys of 32 and nonces of twelve bytes. Block zero
makes the key of the tag; the text is encrypted with the blocks from one on.
-/

namespace SocksChain.Crypto.ChaCha20

abbrev State := Vector UInt32 16

def quarter (s : State) (a b c d : Fin 16) : State :=
  let x := s[a] + s[b]
  let w := rotl (s[d] ^^^ x) 16
  let z := s[c] + w
  let y := rotl (s[b] ^^^ z) 12
  let x := x + y
  let w := rotl (w ^^^ x) 8
  let z := z + w
  let y := rotl (y ^^^ z) 7
  (((s.set a x).set b y).set c z).set d w

/-- Four columns, then four diagonals. -/
def doubleRound (s : State) : State :=
  let s := quarter (quarter (quarter (quarter s 0 4 8 12) 1 5 9 13) 2 6 10 14) 3 7 11 15
  quarter (quarter (quarter (quarter s 0 5 10 15) 1 6 11 12) 2 7 8 13) 3 4 9 14

def initial (key nonce : Bytes) (counter : Nat) : State :=
  let words := ([0x61707865, 0x3320646e, 0x79622d32, 0x6b206574] ++ littleWords key ++
    [UInt32.ofNat counter] ++ littleWords nonce).toArray
  Vector.ofFn fun i => words.getD i 0

def block (key nonce : Bytes) (counter : Nat) : Bytes :=
  let start := initial key nonce counter
  let final := (List.range 10).foldl (fun s _ => doubleRound s) start
  (Vector.zipWith (· + ·) final start).toList.flatMap littleBytes

theorem length_flatMap_littleBytes (l : List UInt32) :
    (l.flatMap littleBytes).length = 4 * l.length := by
  induction l with
  | nil => rfl
  | cons w l ih =>
    simp only [List.flatMap_cons, List.length_append, ih, littleBytes, Bytes.length_littleEndian,
      List.length_cons]
    omega

theorem length_block (key nonce : Bytes) (counter : Nat) :
    (block key nonce counter).length = 64 := by
  rw [block, length_flatMap_littleBytes, Vector.length_toList]

/-- The bits of the multiplier that are kept. -/
def clampMask : Nat := 0x0ffffffc0ffffffc0ffffffc0fffffff

/-- The one-time tag of a message under a key of two sixteen-byte halves. -/
def poly1305 (key message : Bytes) : Bytes :=
  let r := Bytes.ofLittleEndian (key.take 16) &&& clampMask
  let acc := (Bytes.pieces 16 message).foldl
    (fun acc p => (acc + Bytes.ofLittleEndian (p ++ [1])) * r % (1 <<< 130 - 5)) 0
  Bytes.littleEndian 16 (acc + Bytes.ofLittleEndian (key.drop 16))

def tag (key nonce body : Bytes) : Bytes :=
  let fill := Bytes.zeros ((16 - body.length % 16) % 16)
  poly1305 ((block key nonce 0).take 32)
    (body ++ fill ++ Bytes.littleEndian 8 0 ++ Bytes.littleEndian 8 body.length)

def aead (key : Bytes) : Aead :=
  { stream := fun nonce n => counterStream 64 (block key nonce) 1 n
    tag := tag key
    le_length_stream := fun nonce n =>
      le_length_counterStream (by decide) (length_block key nonce) 1 n
    length_tag := fun nonce body => by simp [tag, poly1305, tagLength] }

end SocksChain.Crypto.ChaCha20
