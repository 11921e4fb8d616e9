import SocksChain.Bytes

/-!
The padding of the MD5 and SHA families: one bit, zeros, and the length in bits in eight bytes, so
that blocks of 64 bytes come out even.
-/

namespace SocksChain.Crypto

/-- What follows a message of `n` bytes; `lengthBytes` writes the length. -/
def padding (lengthBytes : Nat → Bytes) (n : Nat) : Bytes :=
  0x80 :: Bytes.zeros ((119 - n % 64) % 64) ++ lengthBytes (8 * n)

def blocks (lengthBytes : Nat → Bytes) (m : Bytes) : List Bytes :=
  Bytes.pieces 64 (m ++ padding lengthBytes m.length)

def rotl (x : UInt32) (n : UInt32) : UInt32 := (x <<< n) ||| (x >>> (32 - n))

def rotr (x : UInt32) (n : UInt32) : UInt32 := (x >>> n) ||| (x <<< (32 - n))

def bigWords (b : Bytes) : List UInt32 :=
  (Bytes.pieces 4 b).map fun p => UInt32.ofNat (Bytes.ofBigEndian p)

def littleWords (b : Bytes) : List UInt32 :=
  (Bytes.pieces 4 b).map fun p => UInt32.ofNat (Bytes.ofLittleEndian p)

def bigBytes (w : UInt32) : Bytes := Bytes.bigEndian 4 w.toNat

def littleBytes (w : UInt32) : Bytes := Bytes.littleEndian 4 w.toNat

end SocksChain.Crypto
