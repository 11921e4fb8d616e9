import SocksChain.Proofs.Cipher.Cutting

/-!
What one end of a stream sends, the other end opens. However the texts are given to one session, and
however the stream is cut for the other, the texts come out in order, and all of them have come out
at the end of the stream. The cipher has a part in this only by opening what it locked.
-/

namespace SocksChain

namespace Bytes

theorem flatten_pieces {n : Nat} (hn : n ≠ 0) (b : Bytes) : (pieces n b).flatten = b := by
  fun_induction pieces n b with
  | case1 b h => exact (h.resolve_right hn).symm
  | case2 b h _ ih => rw [List.flatten_cons, ih, List.take_append_drop]

theorem length_le_of_mem_pieces {n : Nat} {b p : Bytes} (h : p ∈ pieces n b) : p.length ≤ n := by
  fun_induction pieces n b with
  | case1 b _ => cases h
  | case2 b _ _ ih =>
    obtain rfl | h := List.mem_cons.1 h
    · exact List.length_take_le n b
    · exact ih h

theorem ofBigEndian_ofWord (w : UInt16) : ofBigEndian (ofWord w) = w.toNat := by
  have hw := w.toNat_lt
  simp only [ofBigEndian, ofWord, List.foldl_cons, List.foldl_nil, UInt8.toNat_ofNat']
  omega

end Bytes

namespace Cipher

theorem announced_ofWord {n : Nat} (h : n ≤ maxPayload) :
    announced (Bytes.ofWord (UInt16.ofNat n)) = n := by
  unfold maxPayload at h
  rw [announced, Bytes.ofBigEndian_ofWord, UInt16.toNat_ofNat', maxPayload]
  omega

theorem lockFrames_append (c : Crypto.Aead) (uses : Nat) (a b : List Bytes) :
    lockFrames c uses (a ++ b) = lockFrames c uses a ++ lockFrames c (uses + 2 * a.length) b := by
  induction a generalizing uses with
  | nil => rfl
  | cons p a ih =>
    have hn : uses + 2 + 2 * a.length = uses + 2 * (p :: a).length := by
      rw [List.length_cons]
      omega
    simp only [List.cons_append, lockFrames, ih, hn, List.append_assoc]

theorem openFrames_lockFrames (c : Crypto.Aead) (uses : Nat) {payloads : List Bytes}
    (h : ∀ p ∈ payloads, p.length ≤ maxPayload) :
    openFrames c uses none (lockFrames c uses payloads) =
      ⟨payloads.flatten, none, uses + 2 * payloads.length, none, []⟩ := by
  induction payloads generalizing uses with
  | nil => exact openFrames_of_lt (Nat.zero_lt_succ _)
  | cons p rest ih =>
    obtain ⟨hp, hr⟩ := List.forall_mem_cons.1 h
    have hn : uses + 1 + 1 + 2 * rest.length = uses + 2 * (p :: rest).length := by
      rw [List.length_cons]
      omega
    rw [lockFrames, List.append_assoc,
      openFrames_header (c.length_lock _ _) (c.unlock?_lock _ _), announced_ofWord hp,
      openFrames_payload (c.length_lock _ _) (c.unlock?_lock _ _), ih _ hr, hn]
    rfl

/-- The payloads of the frames that texts are sent in. -/
def payloads (texts : List Bytes) : List Bytes := texts.flatMap (Bytes.pieces maxPayload)

theorem flatten_payloads (texts : List Bytes) : (payloads texts).flatten = texts.flatten := by
  induction texts with
  | nil => rfl
  | cons t rest ih =>
    rw [payloads, List.flatMap_cons, List.flatten_append, Bytes.flatten_pieces (by decide)]
    exact congrArg (t ++ ·) ih

theorem length_le_of_mem_payloads (texts : List Bytes) :
    ∀ p ∈ payloads texts, p.length ≤ maxPayload := by
  intro p h
  obtain ⟨t, -, hp⟩ := List.mem_flatMap.1 h
  exact Bytes.length_le_of_mem_pieces hp

/-- What a keyed session sends for texts. -/
def Keyed.wire (texts : List Bytes) : Keyed → Bytes
  | .frames c uses => lockFrames c uses (payloads texts)
  | .keystream r => (r.apply texts.flatten).1

namespace Sealer

theorem lock_wire (k : Keyed) (text : Bytes) (rest : List Bytes) :
    k.wire (text :: rest) = (lock text k).1 ++ (lock text k).2.wire rest := by
  cases k with
  | frames c uses => exact lockFrames_append c uses _ _
  | keystream r => exact congrArg Prod.fst (r.apply_append text rest.flatten)

end Sealer

namespace Encryptor

/-- What a session sends for texts that come one after another; then the session after them, and the
supply that is left. -/
def feed (s : Encryptor) (e : Entropy) : List Bytes → List Bytes × Encryptor × Entropy
  | [] => ([], s, e)
  | text :: rest =>
    let (sent, s, e) := s.update e text
    let (more, s, e) := s.feed e rest
    (sent :: more, s, e)

theorem key_update (s : Encryptor) (e : Entropy) (text : Bytes) :
    (s.update e text).2.1.key = s.key := by
  cases s with
  | datagram k => rfl
  | stream sealer =>
    simp only [update, Sealer.update]
    split <;> rfl

theorem key_feed (s : Encryptor) (e : Entropy) (texts : List Bytes) :
    (s.feed e texts).2.1.key = s.key := by
  induction texts generalizing s e with
  | nil => rfl
  | cons text rest ih => exact (ih _ _).trans (s.key_update e text)

/-- One more text after the others. -/
theorem feed_concat (s : Encryptor) (e : Entropy) (texts : List Bytes) (text : Bytes) :
    let r := s.feed e texts
    let last := r.2.1.update r.2.2 text
    s.feed e (texts ++ [text]) = (r.1 ++ [last.1], last.2) := by
  induction texts generalizing s e with
  | nil => rfl
  | cons t rest ih =>
    simp only [List.cons_append, feed, ih]

theorem flatten_feed_keyed (key : SharedKey) (k : Keyed) (e : Entropy) (texts : List Bytes) :
    ((stream ⟨key, some k⟩).feed e texts).1.flatten = k.wire texts := by
  induction texts generalizing k with
  | nil => cases k <;> rfl
  | cons text rest ih =>
    rw [Sealer.lock_wire, ← ih]
    rfl

theorem flatten_feed_fresh (key : SharedKey) (e : Entropy) (text : Bytes) (rest : List Bytes) :
    let salt := e.draw key.suite.saltLength
    ((stream { key }).feed e (text :: rest)).1.flatten =
      salt ++ (key.keyed salt).wire (text :: rest) := by
  intro salt
  rw [Sealer.lock_wire, ← flatten_feed_keyed key, ← List.append_assoc]
  rfl

end Encryptor

namespace Opener

theorem unlock_wire (key : SharedKey) (k : Keyed) (texts : List Bytes) :
    ∃ s, ({ key } : Opener).unlock k (k.wire texts) = (texts.flatten, none, s) ∧
      s.isPartial = false := by
  cases k with
  | frames c uses =>
    have ho := openFrames_lockFrames c uses (length_le_of_mem_payloads texts)
    rw [flatten_payloads] at ho
    simp only [unlock, Keyed.wire, ho]
    exact ⟨_, rfl, rfl⟩
  | keystream r =>
    simp only [unlock, Keyed.wire, Crypto.Rc4.apply_apply]
    exact ⟨_, rfl, rfl⟩

/-- All that was sent opens at once, and leaves nothing behind. -/
theorem update_sent (key : SharedKey) (e : Entropy) (texts : List Bytes) :
    ∃ s, ({ key } : Opener).update ((Encryptor.stream { key }).feed e texts).1.flatten =
      (texts.flatten, none, s) ∧ s.isPartial = false := by
  cases texts with
  | nil => exact ⟨_, update_nil key, rfl⟩
  | cons text rest =>
    rw [Encryptor.flatten_feed_fresh, update_salt (e.length_draw _)]
    exact unlock_wire key _ _

end Opener

/-- What one end has sent, the other can read, in whatever pieces. -/
theorem SharedKey.feed_sent (key : SharedKey) (e : Entropy) (texts pieces : List Bytes)
    (h : pieces.flatten = ((key.pair false).encryptor.feed e texts).1.flatten) :
    let r := (key.pair false).decryptor.feed pieces
    (∀ a ∈ r.1, a.2 = none) ∧ r.1.flatMap (·.1) = texts.flatten ∧ r.2.isPartial = false := by
  obtain ⟨s, hs, hp⟩ := Opener.update_sent key e texts
  have hw : ({ key } : Opener).update pieces.flatten = (texts.flatten, none, s) := by
    rw [h]
    exact hs
  have ht := (Decryptor.text_feed_stream (Opener.update_nil key) pieces).trans (congrArg (·.1) hw)
  obtain ⟨ha, hf⟩ := Decryptor.feed_stream (Opener.update_nil key) (congrArg (·.2.1) hw)
  rw [hw] at hf
  exact ⟨ha, ht, (congrArg Decryptor.isPartial hf).trans hp⟩

/-- Two ends with one key understand each other, whatever the texts are and however the stream
between them is cut. -/
theorem SharedKey.stream_round_trip (key : SharedKey) (e : Entropy) (texts pieces : List Bytes)
    (h : pieces.flatten = ((key.pair false).encryptor.feed e texts).1.flatten) :
    let r := (key.pair false).decryptor.feed pieces
    (∀ a ∈ r.1, a.2 = none) ∧ (∀ n, (r.1.take n).flatMap (·.1) <+: texts.flatten) ∧
      r.1.flatMap (·.1) = texts.flatten ∧ r.2.isPartial = false := by
  obtain ⟨ha, ht, hp⟩ := key.feed_sent e texts pieces h
  refine ⟨ha, fun n => ?_, ht, hp⟩
  obtain ⟨later, hl⟩ := List.take_prefix n ((key.pair false).decryptor.feed pieces).1
  refine ⟨later.flatMap (·.1), ?_⟩
  rw [← List.flatMap_append, hl]
  exact ht

theorem SharedKey.stream_round_trip_across_salt :
    let key := SharedKey.ofSecret .aes128Gcm "secret"
    let wire := ((key.pair false).encryptor.feed {} [[1, 2, 3], [], [4]]).1.flatten
    let pieces := [wire.take 10, wire.drop 10]
    pieces.flatten = wire ∧
      ((key.pair false).decryptor.feed pieces).1.flatMap (·.1) = [1, 2, 3, 4] := by
  intro key wire pieces
  have h : pieces.flatten = wire := by
    simp only [pieces, List.flatten_cons, List.flatten_nil, List.append_nil,
      List.take_append_drop]
  obtain ⟨-, -, ht, -⟩ := stream_round_trip key {} [[1, 2, 3], [], [4]] pieces h
  exact ⟨h, ht⟩

end Cipher

end SocksChain
