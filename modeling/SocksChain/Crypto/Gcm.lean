import SocksChain.Crypto.Aead
import SocksChain.Crypto.Aes

/-!
Galois/counter mode over AES with nonces of twelve bytes and no associated data. The tag is a
polynomial hash of the ciphertext in the field of 2^128 elements, encrypted as block one; the text
is encrypted with the blocks from two on.
-/

namespace SocksChain.Crypto.Gcm

/-- A field element; the first bit of the first byte is the coefficient of one. -/
structure Element where
  high : UInt64
  low : UInt64

namespace Element

def zero : Element := ⟨0, 0⟩

def add (x y : Element) : Element := ⟨x.high ^^^ y.high, x.low ^^^ y.low⟩

/-- Adds to `z` the products of `v` with the first `n` bits of `x`, doubling `v` at each bit. -/
def mulBits : Nat → (xh xl vh vl zh zl : UInt64) → Element
  | 0, _, _, _, _, zh, zl => ⟨zh, zl⟩
  | n + 1, xh, xl, vh, vl, zh, zl =>
    let take := (xh >>> 63) != 0
    let reduce := (vl &&& 1) != 0
    mulBits n ((xh <<< 1) ||| (xl >>> 63)) (xl <<< 1)
      ((vh >>> 1) ^^^ (if reduce then 0xe100000000000000 else 0)) ((vl >>> 1) ||| (vh <<< 63))
      (if take then zh ^^^ vh else zh) (if take then zl ^^^ vl else zl)

def mul (x y : Element) : Element := mulBits 128 x.high x.low y.high y.low 0 0

def ofBytes (b : Bytes) : Element :=
  ⟨UInt64.ofNat (Bytes.ofBigEndian (b.take 8)), UInt64.ofNat (Bytes.ofBigEndian (b.drop 8))⟩

def bytes (x : Element) : Bytes := Bytes.bigEndian 8 x.high.toNat ++ Bytes.bigEndian 8 x.low.toNat

end Element

/-- The polynomial hash of a byte string under `h`, its last block filled with zeros. -/
def hashBlocks (h : Element) (b : Bytes) : Element :=
  (Bytes.pieces 16 b).foldl
    (fun acc p => (acc.add (Element.ofBytes (p ++ Bytes.zeros (16 - p.length)))).mul h) Element.zero

def counterBlock (nonce : Bytes) (i : Nat) : Bytes :=
  (nonce ++ Bytes.zeros 12).take 12 ++ Bytes.bigEndian 4 i

/-- The encryption of counter `i` under a nonce. -/
def keyBlock (keys : List Aes.Block) (nonce : Bytes) (i : Nat) : Bytes :=
  match Aes.blocks (Aes.columns (counterBlock nonce i)) with
  | x :: _ => (Aes.encryptBlock keys x).bytes
  | [] => Bytes.zeros 16

theorem length_keyBlock (keys : List Aes.Block) (nonce : Bytes) (i : Nat) :
    (keyBlock keys nonce i).length = 16 := by
  unfold keyBlock
  split <;> simp

def tag (keys : List Aes.Block) (h : Element) (nonce body : Bytes) : Bytes :=
  let lengths := Element.mk 0 (UInt64.ofNat (8 * body.length))
  let hash := ((hashBlocks h body).add lengths).mul h
  Bytes.xor hash.bytes (keyBlock keys nonce 1)

/-- The cipher for a key of 16, 24 or 32 bytes. -/
def aead (key : Bytes) : Aead :=
  let keys := Aes.expandKey key
  let h := Element.ofBytes (Aes.encryptBlock keys ⟨⟨0, 0, 0, 0⟩, ⟨0, 0, 0, 0⟩, ⟨0, 0, 0, 0⟩, ⟨0, 0, 0, 0⟩⟩).bytes
  { stream := fun nonce n => counterStream 16 (keyBlock keys nonce) 2 n
    tag := tag keys h
    le_length_stream := fun nonce n =>
      le_length_counterStream (by decide) (length_keyBlock keys nonce) 2 n
    length_tag := fun nonce body => by
      have h16 := length_keyBlock keys nonce 1
      simp [tag, Bytes.xor, Element.bytes, h16, tagLength] }

end SocksChain.Crypto.Gcm
