import SocksChain.Bytes

/-!
Authenticated encryption from a keystream and a tag over what was encrypted. Opening gives back
what was sealed, refuses everything whose tag does not fit, and takes sixteen bytes off.
-/

namespace SocksChain.Crypto

def tagLength : Nat := 16

/-- A keyed cipher: a keystream for every nonce, and a tag for every nonce and ciphertext. -/
structure Aead where
  stream : Bytes → Nat → Bytes
  tag : Bytes → Bytes → Bytes
  le_length_stream : ∀ nonce n, n ≤ (stream nonce n).length
  length_tag : ∀ nonce body, (tag nonce body).length = tagLength

/-- The first `n` bytes, and perhaps more, of blocks numbered from `start` on. -/
def counterStream (size : Nat) (block : Nat → Bytes) (start n : Nat) : Bytes :=
  (List.range ((n + size - 1) / size)).flatMap fun i => block (start + i)

theorem le_length_counterStream {size : Nat} {block : Nat → Bytes} (hs : 0 < size)
    (hb : ∀ i, (block i).length = size) (start n : Nat) :
    n ≤ (counterStream size block start n).length := by
  have h : ∀ k, ((List.range k).flatMap fun i => block (start + i)).length = size * k := by
    intro k
    induction k with
    | zero => rfl
    | succ k ih =>
      rw [List.range_succ, List.flatMap_append, List.length_append, ih]
      simp only [List.flatMap_cons, List.flatMap_nil, List.append_nil, hb]
      rw [Nat.mul_add, Nat.mul_one]
  rw [counterStream, h]
  have h1 := Nat.div_add_mod (n + size - 1) size
  have h2 := Nat.mod_lt (n + size - 1) hs
  omega

theorem length_xor_of_le {a b : Bytes} (h : a.length ≤ b.length) :
    (Bytes.xor a b).length = a.length := by
  simp only [Bytes.xor, List.length_zipWith]
  omega

theorem xor_xor {a b : Bytes} (h : a.length ≤ b.length) :
    Bytes.xor (Bytes.xor a b) b = a := by
  induction a generalizing b with
  | nil => simp [Bytes.xor]
  | cons x a ih =>
    cases b with
    | nil => simp at h
    | cons y b =>
      have hx : x ^^^ y ^^^ y = x := by rw [UInt8.xor_assoc, UInt8.xor_self, UInt8.xor_zero]
      simpa [Bytes.xor, hx] using ih (by simpa using h)

namespace Aead

def crypt (c : Aead) (nonce text : Bytes) : Bytes := Bytes.xor text (c.stream nonce text.length)

/-- The encrypted text, then its tag. -/
def lock (c : Aead) (nonce text : Bytes) : Bytes :=
  c.crypt nonce text ++ c.tag nonce (c.crypt nonce text)

/-- The text that was locked, if the tag at the end is the tag of the rest. -/
def unlock? (c : Aead) (nonce locked : Bytes) : Option Bytes :=
  if locked.length < tagLength then none
  else
    let body := locked.take (locked.length - tagLength)
    if c.tag nonce body = locked.drop (locked.length - tagLength) then some (c.crypt nonce body)
    else none

@[simp] theorem length_crypt (c : Aead) (nonce text : Bytes) :
    (c.crypt nonce text).length = text.length :=
  length_xor_of_le (c.le_length_stream _ _)

theorem crypt_crypt (c : Aead) (nonce text : Bytes) :
    c.crypt nonce (c.crypt nonce text) = text := by
  rw [crypt, length_crypt]
  exact xor_xor (c.le_length_stream _ _)

@[simp] theorem length_lock (c : Aead) (nonce text : Bytes) :
    (c.lock nonce text).length = text.length + tagLength := by
  simp [lock, c.length_tag]

theorem unlock?_lock (c : Aead) (nonce text : Bytes) :
    c.unlock? nonce (c.lock nonce text) = some text := by
  have h1 : (c.lock nonce text).take ((c.lock nonce text).length - tagLength) =
      c.crypt nonce text := by
    simp [lock, c.length_tag]
  have h2 : (c.lock nonce text).drop ((c.lock nonce text).length - tagLength) =
      c.tag nonce (c.crypt nonce text) := by
    simp [lock, c.length_tag]
  have h3 : ¬ (c.lock nonce text).length < tagLength := by
    rw [length_lock]
    omega
  simp only [unlock?, if_neg h3, h1, h2, if_true, crypt_crypt]

theorem length_of_unlock? {c : Aead} {nonce locked text : Bytes}
    (h : c.unlock? nonce locked = some text) : text.length + tagLength = locked.length := by
  unfold unlock? at h
  split at h
  · cases h
  · dsimp only at h
    split at h
    · cases h
      simp only [length_crypt, List.length_take]
      omega
    · cases h

end Aead

end SocksChain.Crypto
