import SocksChain.Cipher.Stream

/-!
Sessions: one for each direction of a hop, over a byte stream or over datagrams. A datagram holds
its own salt, so it opens whatever came before it; but a decrypting session that has met one
failure stays closed.
-/

namespace SocksChain.Cipher

namespace Datagram

def lock (k : SharedKey) (salt payload : Bytes) : Bytes :=
  match k.keyed salt with
  | .frames c _ => salt ++ c.lock (nonce 0) payload
  | .keystream r => salt ++ (r.apply payload).1

def unlock (k : SharedKey) (packet : Bytes) : Except CipherCause Bytes :=
  let size := k.suite.saltLength
  if k.suite.authenticates && packet.length < size + Crypto.tagLength then .error .shortDatagram
  else if packet.length < size then .error .missingIv
  else
    match k.keyed (packet.take size) with
    | .frames c _ =>
      match c.unlock? (nonce 0) (packet.drop size) with
      | some payload => .ok payload
      | none => .error .tagMismatch
    | .keystream r => .ok (r.apply (packet.drop size)).1

theorem length_of_unlock {k : SharedKey} {packet payload : Bytes}
    (h : unlock k packet = .ok payload) : payload.length ≤ packet.length := by
  unfold unlock at h
  dsimp only at h
  split at h
  · cases h
  · split at h
    · cases h
    · split at h
      · split at h
        · rename_i hu
          cases h
          have := Crypto.Aead.length_of_unlock? hu
          simp only [List.length_drop] at this
          omega
        · cases h
      · cases h
        simp

end Datagram

inductive Encryptor where
  | stream (sealer : Sealer)
  | datagram (key : SharedKey)

inductive Decryptor where
  | stream (opener : Opener)
  | datagram (key : SharedKey) (failed : Bool)

namespace Encryptor

def key : Encryptor → SharedKey
  | stream s => s.key
  | datagram k => k

def isDatagram : Encryptor → Bool
  | stream _ => false
  | datagram _ => true

/-- Seals a piece of a stream, or one datagram. -/
def update (s : Encryptor) (e : Entropy) (text : Bytes) : Bytes × Encryptor × Entropy :=
  match s with
  | stream sealer =>
    let (sent, sealer, e) := sealer.update e text
    (sent, stream sealer, e)
  | datagram k =>
    (Datagram.lock k (e.draw k.suite.saltLength) text, datagram k, e.after k.suite.saltLength)

end Encryptor

namespace Decryptor

def key : Decryptor → SharedKey
  | stream s => s.key
  | datagram k _ => k

def isDatagram : Decryptor → Bool
  | stream _ => false
  | datagram _ _ => true

def isPartial : Decryptor → Bool
  | stream s => s.isPartial
  | datagram _ _ => false

/-- How many received bytes wait for the rest of a frame. -/
def heldLength : Decryptor → Nat
  | stream s => s.held.length
  | datagram _ _ => 0

/-- Opens a piece of a stream, or one datagram; text that came before a failure is kept. -/
def update (s : Decryptor) (received : Bytes) : Bytes × Option CipherCause × Decryptor :=
  match s with
  | stream opener =>
    let (text, failure, opener) := opener.update received
    (text, failure, stream opener)
  | datagram _ true => ([], some .sessionClosed, s)
  | datagram k false =>
    match Datagram.unlock k received with
    | .ok text => (text, none, s)
    | .error cause => ([], some cause, datagram k true)

theorem length_update_le (s : Decryptor) (received : Bytes) :
    (s.update received).1.length + (s.update received).2.2.heldLength ≤
      s.heldLength + received.length := by
  unfold update
  split
  · exact Opener.length_update_le _ _
  · simp [heldLength]
  · split
    · have := Datagram.length_of_unlock ‹_›
      simp only [heldLength]
      omega
    · simp [heldLength]

/-- Opens all or nothing: the text of a piece that holds a failure is lost. -/
def updateAll (s : Decryptor) (received : Bytes) : Except CipherCause Bytes × Decryptor :=
  match s.update received with
  | (text, none, s) => (.ok text, s)
  | (_, some cause, s) => (.error cause, s)

end Decryptor

/-- The sessions of one end of a hop. -/
structure Pair where
  encryptor : Encryptor
  decryptor : Decryptor

def SharedKey.pair (k : SharedKey) (datagrams : Bool) : Pair :=
  if datagrams then ⟨.datagram k, .datagram k false⟩
  else ⟨.stream { key := k }, .stream { key := k }⟩

def Pair.ofName (name secret : String) (datagrams : Bool) : Except Failure Pair :=
  (SharedKey.ofName name secret).map fun k => k.pair datagrams

end SocksChain.Cipher
