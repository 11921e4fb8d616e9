import SocksChain.Crypto.ChaCha20
import SocksChain.Crypto.Gcm
import SocksChain.Crypto.Md5
import SocksChain.Crypto.Rc4
import SocksChain.Crypto.Sha1
import SocksChain.Failure

/-!
The cipher suites a hop can speak, and their key schedule: a secret gives a master key, and every
salt gives the key of one stream or datagram. A longer master key of the same secret starts with
the shorter ones.
-/

namespace SocksChain.Cipher

inductive Suite where
  | aes128Gcm
  | aes192Gcm
  | aes256Gcm
  | chacha20Poly1305
  | rc4Md5
deriving DecidableEq

namespace Suite

def all : List Suite := [aes128Gcm, aes192Gcm, aes256Gcm, chacha20Poly1305, rc4Md5]

def name : Suite → String
  | aes128Gcm => "aes-128-gcm"
  | aes192Gcm => "aes-192-gcm"
  | aes256Gcm => "aes-256-gcm"
  | chacha20Poly1305 => "chacha20-ietf-poly1305"
  | rc4Md5 => "rc4-md5"

def lowered (s : String) : String := String.ofList (s.toList.map Char.toLower)

/-- The suite of a name in any case of its ASCII letters; one suite has a shorter name too. -/
def ofName? (s : String) : Option Suite :=
  if lowered s = "chacha20-poly1305" then some chacha20Poly1305
  else all.find? fun x => x.name = lowered s

def ofName (s : String) : Except Failure Suite :=
  match ofName? s with
  | some x => .ok x
  | none => .error (.unsupportedCipher s)

def keyLength : Suite → Nat
  | aes128Gcm => 16
  | aes192Gcm => 24
  | aes256Gcm => 32
  | chacha20Poly1305 => 32
  | rc4Md5 => 16

/-- The length of the salt, or of the initial vector, that goes before everything else. -/
def saltLength : Suite → Nat
  | aes128Gcm => 16
  | aes192Gcm => 24
  | aes256Gcm => 32
  | chacha20Poly1305 => 32
  | rc4Md5 => 16

theorem saltLength_pos (suite : Suite) : 0 < suite.saltLength := by cases suite <;> decide

def authenticates : Suite → Bool
  | rc4Md5 => false
  | _ => true

end Suite

/-- What there is of a key, and the last block of it. -/
structure Stretch where
  key : Bytes := []
  block : Bytes := []

namespace Stretch

/-- Adds a block: the digest of the block before it and the secret. -/
def round (secret : Bytes) (s : Stretch) : Stretch :=
  let block := Crypto.Md5.hash (s.block ++ secret)
  ⟨s.key ++ block, block⟩

@[simp] theorem length_key_round (secret : Bytes) (s : Stretch) :
    (s.round secret).key.length = s.key.length + 16 := by
  simp [round]

/-- Adds blocks until the key is long enough. It may come out longer than that. -/
def upTo (secret : Bytes) (size : Nat) (s : Stretch) : Stretch :=
  if s.key.length < size then (s.round secret).upTo secret size else s
termination_by size - s.key.length
decreasing_by
  rw [length_key_round]
  omega

end Stretch

def masterKey (secret : Bytes) (size : Nat) : Bytes :=
  (Stretch.upTo secret size {}).key.take size

def subkeyInfo : Bytes := Bytes.ofText "ss-subkey"

def subkey (master salt : Bytes) : Bytes :=
  Crypto.Sha1.derive master salt subkeyInfo master.length

/-- What a salt and a master key make of a suite. -/
inductive Keyed where
  /-- Authenticated encryption, and how many times it has been used. -/
  | frames (aead : Crypto.Aead) (uses : Nat)
  | keystream (rc4 : Crypto.Rc4)

def Suite.keyed (suite : Suite) (master salt : Bytes) : Keyed :=
  match suite with
  | .aes128Gcm | .aes192Gcm | .aes256Gcm => .frames (Crypto.Gcm.aead (subkey master salt)) 0
  | .chacha20Poly1305 => .frames (Crypto.ChaCha20.aead (subkey master salt)) 0
  | .rc4Md5 => .keystream (.ofKey (Crypto.Md5.hash (master ++ salt)))

/-- A suite together with the master key that two ends of a hop share. -/
structure SharedKey where
  suite : Suite
  master : Bytes
deriving DecidableEq

namespace SharedKey

def ofSecret (suite : Suite) (secret : String) : SharedKey :=
  ⟨suite, masterKey (Bytes.ofText secret) suite.keyLength⟩

def ofName (name secret : String) : Except Failure SharedKey :=
  (Suite.ofName name).map fun suite => ofSecret suite secret

def keyed (k : SharedKey) (salt : Bytes) : Keyed := k.suite.keyed k.master salt

end SharedKey

end SocksChain.Cipher
