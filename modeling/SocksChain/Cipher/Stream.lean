import SocksChain.Cipher.Entropy
import SocksChain.Cipher.Suite

/-!
Both directions of a ciphered byte stream. A stream starts with a salt. Under an authenticating
suite it goes on in frames, each a locked length of two bytes and a locked payload, every lock
with the next nonce; under a keystream the text follows byte by byte. The sealing side never
fails. The opening side keeps what is not yet a whole frame, and after a frame that does not
authenticate it refuses everything.
-/

namespace SocksChain.Cipher

def maxPayload : Nat := 0x3FFF

/-- What a cipher is used with after so many uses: zeros at first, and counted up by each use. -/
def nonce : Nat → Bytes
  | 0 => Bytes.zeros 12
  | uses + 1 => (nonce uses).increment

theorem nonce_eq (uses : Nat) : nonce uses = Bytes.littleEndian 12 uses := by
  induction uses with
  | zero => rfl
  | succ uses ih => rw [nonce, ih, Bytes.increment_littleEndian]

/-- The frames of the given payloads. -/
def lockFrames (c : Crypto.Aead) (uses : Nat) : List Bytes → Bytes
  | [] => []
  | p :: rest =>
    c.lock (nonce uses) (Bytes.ofWord (UInt16.ofNat p.length)) ++ c.lock (nonce (uses + 1)) p ++
      lockFrames c (uses + 2) rest

/-- The encrypting side of a stream. Its salt goes out in front of what is sealed first. -/
structure Sealer where
  key : SharedKey
  keyed : Option Keyed := none

namespace Sealer

def lock (text : Bytes) : Keyed → Bytes × Keyed
  | .frames c uses =>
    let payloads := Bytes.pieces maxPayload text
    (lockFrames c uses payloads, .frames c (uses + 2 * payloads.length))
  | .keystream r => ((r.apply text).1, .keystream (r.apply text).2)

/-- The bytes to send for a text, and the supply that is left. -/
def update (s : Sealer) (e : Entropy) (text : Bytes) : Bytes × Sealer × Entropy :=
  match s.keyed with
  | some k =>
    let (sent, k) := lock text k
    (sent, { s with keyed := some k }, e)
  | none =>
    let salt := e.draw s.key.suite.saltLength
    let (sent, k) := lock text (s.key.keyed salt)
    (salt ++ sent, { s with keyed := some k }, e.after s.key.suite.saltLength)

end Sealer

/-- What opening has come to: the text so far, and what stopped it if a frame did not open. -/
structure Opened where
  text : Bytes
  failure : Option CipherCause
  uses : Nat
  /-- The payload length that the last header announced. -/
  expected : Option Nat
  held : Bytes

/-- Opens the frames at the front of `held`, as long as they are whole. -/
def openFrames (c : Crypto.Aead) (uses : Nat) (expected : Option Nat) (held : Bytes) : Opened :=
  let size := expected.getD 2 + Crypto.tagLength
  if h : (held.take size).length < size then ⟨[], none, uses, expected, held⟩
  else
    have : (held.drop size).length < held.length := by
      simp only [List.length_take, List.length_drop, size, Crypto.tagLength] at h ⊢
      omega
    match c.unlock? (nonce uses) (held.take size), expected with
    | none, _ => ⟨[], some .tagMismatch, uses, expected, held⟩
    | some header, none =>
      openFrames c (uses + 1) (some (Bytes.ofBigEndian header % (maxPayload + 1))) (held.drop size)
    | some payload, some _ =>
      let later := openFrames c (uses + 1) none (held.drop size)
      { later with text := payload ++ later.text }
termination_by held.length
decreasing_by all_goals assumption

/-- What opens is never longer than what it was opened from. -/
theorem length_openFrames_le (c : Crypto.Aead) (uses : Nat) (expected : Option Nat) (held : Bytes) :
    (openFrames c uses expected held).text.length + (openFrames c uses expected held).held.length ≤
      held.length := by
  fun_induction openFrames c uses expected held with
  | case1 => simp
  | case2 => simp
  | case3 => simp_all; omega
  | case4 uses held size h this payload n hu later ih =>
    have hp := Crypto.Aead.length_of_unlock? hu
    simp only [List.length_take, List.length_drop, List.length_append, later] at *
    omega

/-- The decrypting side of a stream. -/
structure Opener where
  key : SharedKey
  keyed : Option Keyed := none
  expected : Option Nat := none
  held : Bytes := []
  failed : Bool := false

namespace Opener

/-- Whether the stream, if it ended here, would end inside its salt or a frame. -/
def isPartial (s : Opener) : Bool := !s.held.isEmpty || s.expected.isSome

def unlock (s : Opener) (k : Keyed) (held : Bytes) : Bytes × Option CipherCause × Opener :=
  match k with
  | .frames c uses =>
    let r := openFrames c uses s.expected held
    (r.text, r.failure, { s with
      keyed := some (.frames c r.uses)
      expected := r.expected
      held := r.held
      failed := r.failure.isSome })
  | .keystream rc4 =>
    ((rc4.apply held).1, none, { s with keyed := some (.keystream (rc4.apply held).2), held := [] })

/-- The text that more bytes of the stream finish, and what went wrong after it. -/
def update (s : Opener) (received : Bytes) : Bytes × Option CipherCause × Opener :=
  if s.failed then ([], some .sessionClosed, s)
  else
    let held := s.held ++ received
    match s.keyed with
    | some k => s.unlock k held
    | none =>
      let size := s.key.suite.saltLength
      if (held.take size).length < size then ([], none, { s with held := held })
      else s.unlock (s.key.keyed (held.take size)) (held.drop size)

theorem length_unlock_le (s : Opener) (k : Keyed) (held : Bytes) :
    (s.unlock k held).1.length + (s.unlock k held).2.2.held.length ≤ held.length := by
  unfold unlock
  split
  · exact length_openFrames_le _ _ _ _
  · simp

theorem length_update_le (s : Opener) (received : Bytes) :
    (s.update received).1.length + (s.update received).2.2.held.length ≤
      s.held.length + received.length := by
  unfold update
  split
  · simp
  · dsimp only
    split
    · have := length_unlock_le s ‹_› (s.held ++ received)
      simpa using this
    · split
      · simp
      · have := length_unlock_le s (s.key.keyed ((s.held ++ received).take s.key.suite.saltLength))
          ((s.held ++ received).drop s.key.suite.saltLength)
        simp only [List.length_drop, List.length_append] at this ⊢
        omega

end Opener

end SocksChain.Cipher
