import SocksChain.Cipher.Session

/-!
The sessions with every check in place. Each length that a cipher, a key derivation or a cut of a
buffer depends on is looked at where it matters, and what is wrong with it is said. A session of
this kind is closed by whatever goes wrong first.
-/

namespace SocksChain.Cipher

/-- What stops a step: a failure that is reported, or a position that a buffer does not have. -/
inductive Breach where
  | reported (failure : Failure)
  | outOfRange
deriving DecidableEq

/-- What sessions are built on: the longest text that a cipher locks, and whether the keystream
suites are there. -/
structure Build where
  longestText : Nat
  keystreams : Bool

def Build.offers (b : Build) (suite : Suite) : Bool := suite.authenticates || b.keystreams

namespace Checked

def refuse {α : Type} (cause : CipherCause) : Except Breach α := .error (.reported (.cipher cause))

/-- The first `n` bytes and the rest. -/
def cut (b : Bytes) (n : Nat) : Except Breach (Bytes × Bytes) :=
  if n ≤ b.length then .ok (b.take n, b.drop n) else .error .outOfRange

theorem length_of_cut {b front rest : Bytes} {n : Nat} (h : cut b n = .ok (front, rest)) :
    rest.length + n = b.length := by
  unfold cut at h
  split at h
  · cases h
    rw [List.length_drop]
    omega
  · cases h

/-- How much is missing to `n`. -/
def missing (n got : Nat) : Except Breach Nat :=
  if got ≤ n then .ok (n - got) else .error .outOfRange

section Keys

inductive Family where
  | frames
  | keystream

def family (b : Build) (suite : Suite) : Except Breach Family :=
  if suite.authenticates then .ok .frames
  else if b.keystreams then .ok .keystream
  else .error (.reported (.unsupportedCipher suite.name))

/-- The key derivation gives at most 255 blocks. -/
def expand (master salt : Bytes) : Except Breach Bytes :=
  if master.length ≤ 255 * 20 then .ok (subkey master salt)
  else refuse (.other "HKDF expansion failed")

/-- The cipher of a suite, which takes keys of one length only. -/
def aead (suite : Suite) (key : Bytes) : Except Breach Crypto.Aead :=
  match suite with
  | .aes128Gcm => sized 16 Crypto.Gcm.aead
  | .aes192Gcm => sized 24 Crypto.Gcm.aead
  | .aes256Gcm => sized 32 Crypto.Gcm.aead
  | .chacha20Poly1305 => sized 32 Crypto.ChaCha20.aead
  | .rc4Md5 => refuse (.other (suite.name ++ " is not an AEAD cipher"))
where
  sized (size : Nat) (cipher : Bytes → Crypto.Aead) : Except Breach Crypto.Aead :=
    if key.length = size then .ok (cipher key)
    else refuse (.other ("invalid key length for " ++ suite.name))

def frameCipher (k : SharedKey) (salt : Bytes) : Except Breach Crypto.Aead := do
  aead k.suite (← expand k.master salt)

def keystream (k : SharedKey) (salt : Bytes) : Except Breach Crypto.Rc4 :=
  let key := Crypto.Md5.hash (k.master ++ salt)
  if key.length = 16 then .ok (.ofKey key) else refuse (.other "invalid rc4 key length")

def keyed (b : Build) (k : SharedKey) (salt : Bytes) : Except Breach Keyed := do
  match ← family b k.suite with
  | .frames => return .frames (← frameCipher k salt) 0
  | .keystream => return .keystream (← keystream k salt)

end Keys

def lock (b : Build) (c : Crypto.Aead) (uses : Nat) (text : Bytes) : Except Breach Bytes :=
  if text.length ≤ b.longestText then .ok (c.lock (nonce uses) text)
  else refuse (.other "AEAD seal failed")

def authentic : Option Bytes → Except Breach Bytes
  | some text => .ok text
  | none => refuse .tagMismatch

def unlock (b : Build) (c : Crypto.Aead) (uses : Nat) (locked : Bytes) : Except Breach Bytes :=
  if locked.length < Crypto.tagLength then refuse (.other "ciphertext shorter than tag")
  else if b.longestText < locked.length - Crypto.tagLength then refuse .tagMismatch
  else authentic (c.unlock? (nonce uses) locked)

/-- Puts a text behind what a buffer holds and applies the keystream to it there. -/
def applyBehind (r : Crypto.Rc4) (buffer text : Bytes) : Except Breach (Bytes × Crypto.Rc4) := do
  let (front, behind) ← cut (buffer ++ text) buffer.length
  return (front ++ (r.apply behind).1, (r.apply behind).2)

/-- The payload length that a header announces. -/
def announced : Bytes → Except Breach Nat
  | high :: low :: _ => .ok ((Bytes.word high low).toNat &&& maxPayload)
  | _ => .error .outOfRange

/-- The frames of a text, and how many times the cipher has then been used. -/
def lockFrames (b : Build) (c : Crypto.Aead) (uses : Nat) (text : Bytes) :
    Except Breach (Bytes × Nat) :=
  if ht : text = [] then .ok ([], uses)
  else
    let size := min maxPayload text.length
    match h : cut text size with
    | .error breach => .error breach
    | .ok (payload, rest) => do
      have : rest.length < text.length := by
        have hl := length_of_cut h
        have hpos := List.length_pos_iff.mpr ht
        have hmax : 0 < maxPayload := by decide
        omega
      let head ← lock b c uses (Bytes.ofWord (UInt16.ofNat size))
      let body ← lock b c (uses + 1) payload
      let (later, uses) ← lockFrames b c (uses + 2) rest
      return (head ++ body ++ later, uses)
termination_by text.length

/-- The bytes to send for a text, and the supply that is left. -/
def sealStream (b : Build) (s : Sealer) (e : Entropy) (text : Bytes) :
    Except Breach (Bytes × Sealer × Entropy) :=
  match s.keyed with
  | some k => behind [] k e
  | none => do
    let salt := e.draw s.key.suite.saltLength
    behind salt (← keyed b s.key salt) (e.after s.key.suite.saltLength)
where
  behind (sent : Bytes) (k : Keyed) (e : Entropy) : Except Breach (Bytes × Sealer × Entropy) := do
    match k with
    | .frames c uses =>
      let (frames, uses) ← lockFrames b c uses text
      return (sent ++ frames, { s with keyed := some (.frames c uses) }, e)
    | .keystream r =>
      let (sent, r) ← applyBehind r sent text
      return (sent, { s with keyed := some (.keystream r) }, e)

def sealDatagram (b : Build) (k : SharedKey) (salt payload : Bytes) : Except Breach Bytes := do
  match ← keyed b k salt with
  | .frames c uses => return salt ++ (← lock b c uses payload)
  | .keystream r => return (← applyBehind r salt payload).1

/-- Seals a piece of a stream, or one datagram. -/
def encrypt (b : Build) (s : Encryptor) (e : Entropy) (text : Bytes) :
    Except Breach (Bytes × Encryptor × Entropy) := do
  match s with
  | .stream sealer =>
    let (sent, sealer, e) ← sealStream b sealer e text
    return (sent, .stream sealer, e)
  | .datagram k =>
    let packet ← sealDatagram b k (e.draw k.suite.saltLength) text
    return (packet, .datagram k, e.after k.suite.saltLength)

/-- What is sent for texts that come one after another, if nothing goes wrong. -/
def encryptAll (b : Build) (s : Encryptor) (e : Entropy) :
    List Bytes → Except Breach (List Bytes × Encryptor × Entropy)
  | [] => .ok ([], s, e)
  | text :: rest => do
    let (sent, s, e) ← encrypt b s e text
    let (more, s, e) ← encryptAll b s e rest
    return (sent :: more, s, e)

/-- What opening has come to: the text so far, and what stopped it. -/
structure Opened where
  text : Bytes
  breach : Option Breach
  uses : Nat
  expected : Option Nat
  held : Bytes

/-- Opens the frames at the front of `held`, as long as they are whole. -/
def openFrames (b : Build) (c : Crypto.Aead) (uses : Nat) (expected : Option Nat) (held : Bytes) :
    Opened :=
  let size := expected.getD 2 + Crypto.tagLength
  let stop (breach : Option Breach) : Opened := ⟨[], breach, uses, expected, held⟩
  if held.length < size then stop none
  else
    match h : cut held size with
    | .error breach => stop (some breach)
    | .ok (locked, rest) =>
      have : rest.length < held.length := by
        have hl := length_of_cut h
        have htag : 0 < Crypto.tagLength := by decide
        omega
      match unlock b c uses locked, expected with
      | .error breach, _ => stop (some breach)
      | .ok header, none =>
        match announced header with
        | .error breach => stop (some breach)
        | .ok n => openFrames b c (uses + 1) (some n) rest
      | .ok payload, some _ =>
        let later := openFrames b c (uses + 1) none rest
        { later with text := payload ++ later.text }
termination_by held.length
decreasing_by all_goals assumption

/-- Where a stream stands that has not been keyed yet. -/
inductive Start where
  | short (held : Bytes)
  | keyed (k : Keyed) (behind : Bytes)

/-- Takes the salt off the front of a stream as soon as it is there. -/
def start (b : Build) (s : Opener) (received : Bytes) : Except Breach Start := do
  let size := s.key.suite.saltLength
  match ← family b s.key.suite with
  | .frames =>
    let held := s.held ++ received
    if held.length < size then return .short held
    let (salt, behind) ← cut held size
    return .keyed (.frames (← frameCipher s.key salt) 0) behind
  | .keystream =>
    let need ← missing size s.held.length
    let (front, behind) ← cut received (min need received.length)
    let salt := s.held ++ front
    if salt.length < size then return .short salt
    return .keyed (.keystream (← keystream s.key salt)) behind

def openBehind (b : Build) (s : Opener) (k : Keyed) (held : Bytes) :
    Bytes × Option Breach × Opener :=
  match k with
  | .frames c uses =>
    let r := openFrames b c uses s.expected held
    (r.text, r.breach, { s with
      keyed := some (.frames c r.uses)
      expected := r.expected
      held := r.held
      failed := r.breach.isSome })
  | .keystream rc4 =>
    match applyBehind rc4 [] held with
    | .error breach => ([], some breach, { s with failed := true })
    | .ok (text, rc4) => (text, none, { s with keyed := some (.keystream rc4), held := [] })

/-- The text that more bytes of the stream finish, and what went wrong after it. -/
def openStream (b : Build) (s : Opener) (received : Bytes) : Bytes × Option Breach × Opener :=
  if s.failed then ([], some (.reported (.cipher .sessionClosed)), s)
  else
    match s.keyed with
    | some k => openBehind b s k (s.held ++ received)
    | none =>
      match start b s received with
      | .error breach => ([], some breach, { s with failed := true })
      | .ok (.short held) => ([], none, { s with held := held })
      | .ok (.keyed k behind) => openBehind b s k behind

def openDatagram (b : Build) (k : SharedKey) (packet : Bytes) : Except Breach Bytes := do
  let size := k.suite.saltLength
  match ← family b k.suite with
  | .frames =>
    if packet.length < size + Crypto.tagLength then refuse .shortDatagram
    let (salt, locked) ← cut packet size
    unlock b (← frameCipher k salt) 0 locked
  | .keystream =>
    if packet.length < size then refuse .missingIv
    let (salt, body) ← cut packet size
    return (← applyBehind (← keystream k salt) [] body).1

/-- Opens a piece of a stream, or one datagram; text that came before a breach is kept. -/
def decrypt (b : Build) (s : Decryptor) (received : Bytes) : Bytes × Option Breach × Decryptor :=
  match s with
  | .stream opener =>
    let (text, breach, opener) := openStream b opener received
    (text, breach, .stream opener)
  | .datagram _ true => ([], some (.reported (.cipher .sessionClosed)), s)
  | .datagram k false =>
    match openDatagram b k received with
    | .ok text => (text, none, s)
    | .error breach => ([], some breach, .datagram k true)

/-- The answers to pieces that come one after another, and the session after them. -/
def decryptAll (b : Build) (s : Decryptor) :
    List Bytes → List (Bytes × Option Breach) × Decryptor
  | [] => ([], s)
  | piece :: rest =>
    let (text, breach, s) := decrypt b s piece
    let (answers, s) := decryptAll b s rest
    ((text, breach) :: answers, s)

end Checked

end SocksChain.Cipher
