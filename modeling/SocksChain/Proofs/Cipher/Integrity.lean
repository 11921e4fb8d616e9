import Mathlib.Algebra.Group.Nat.Defs
import SocksChain.Proofs.Cipher.RoundTrip

/-!
What an attacker can make the end of an authenticated stream believe. Nothing that it has opened was
forged, if whatever it tries and manages to open was locked at the other end with the same key and
nonce. Nonces count up on both ends, so then it has opened what the other end locked, in order and
from the beginning.
-/

namespace SocksChain

namespace Bytes

theorem ofLittleEndian_littleEndian (n v : Nat) :
    ofLittleEndian (littleEndian n v) = v % 256 ^ n := by
  induction n generalizing v with
  | zero => rw [Nat.pow_zero, Nat.mod_one]; rfl
  | succ n ih =>
    rw [littleEndian, ofLittleEndian, ih, UInt8.toNat_ofNat', Nat.pow_succ' (m := 256)]
    exact Nat.mod_mul.symm

end Bytes

namespace Cipher

theorem nonce_injective {m n : Nat} (h : nonce m = nonce n) (hm : m < 2 ^ 96) (hn : n < 2 ^ 96) :
    m = n := by
  have h := congrArg Bytes.ofLittleEndian h
  rw [nonce_eq, nonce_eq, Bytes.ofLittleEndian_littleEndian, Bytes.ofLittleEndian_littleEndian] at h
  have hp : 256 ^ 12 = 2 ^ 96 := by decide
  rwa [hp, Nat.mod_eq_of_lt hm, Nat.mod_eq_of_lt hn] at h

/-- The cipher of a suite that authenticates. -/
def Suite.aead (suite : Suite) (key : Bytes) : Crypto.Aead :=
  match suite with
  | .chacha20Poly1305 => Crypto.ChaCha20.aead key
  | _ => Crypto.Gcm.aead key

theorem SharedKey.keyed_of_authenticates {key : SharedKey} (h : key.suite.authenticates = true)
    (salt : Bytes) : key.keyed salt = .frames (key.suite.aead (subkey key.master salt)) 0 := by
  obtain ⟨suite, master⟩ := key
  cases suite with
  | rc4Md5 => cases h
  | _ => rfl

/-- What is locked for frames with the given payloads, in order. -/
def messages (payloads : List Bytes) : List Bytes :=
  payloads.flatMap fun p => [Bytes.ofWord (UInt16.ofNat p.length), p]

@[simp] theorem length_messages (payloads : List Bytes) :
    (messages payloads).length = 2 * payloads.length := by
  induction payloads with
  | nil => rfl
  | cons p rest ih =>
    rw [messages, List.flatMap_cons, List.length_append, ← messages, ih, List.length_cons]
    simp only [List.length_cons, List.length_nil]
    omega

theorem messages_payload (payloads : List Bytes) (j : Nat) :
    (messages payloads)[2 * j + 1]? = payloads[j]? := by
  induction payloads generalizing j with
  | nil => rfl
  | cons p rest ih =>
    cases j with
    | zero => rfl
    | succ j => exact ih j

/-- Something that was locked, with what it was locked with. -/
structure Sealing where
  key : Bytes
  nonce : Bytes
  locked : Bytes

/-- What a session with the given random bytes locks for texts, one after another. -/
def SharedKey.sealings (key : SharedKey) (e : Entropy) (texts : List Bytes) : List Sealing :=
  let k := subkey key.master (e.draw key.suite.saltLength)
  (messages (payloads texts)).mapIdx fun i m =>
    ⟨k, nonce i, (key.suite.aead k).lock (nonce i) m⟩

/-- Opening `held` comes to trying `locked` with nonce number `n`. -/
def Tries (c : Crypto.Aead) (uses : Nat) (expected : Option Nat) (held : Bytes) (n : Nat)
    (locked : Bytes) : Prop :=
  ∃ front, front ++ locked <+: held ∧
    let r := openFrames c uses expected front
    r.failure = none ∧ r.held = [] ∧ r.uses = n ∧ locked.length = lockedLength r.expected

/-- Whatever is tried in a stream and opens, is one of the sealings. -/
def SharedKey.Unforged (key : SharedKey) (sealings : List Sealing) (stream : Bytes) : Prop :=
  let k := subkey key.master (stream.take key.suite.saltLength)
  let c := key.suite.aead k
  ∀ n locked, Tries c 0 none (stream.drop key.suite.saltLength) n locked →
    (c.unlock? (nonce n) locked).isSome → ⟨k, nonce n, locked⟩ ∈ sealings

section Tries

variable {c : Crypto.Aead} {uses n : Nat} {locked rest tried : Bytes}

theorem tries_front {expected : Option Nat} (hl : locked.length = lockedLength expected) :
    Tries c uses expected (locked ++ rest) uses locked := by
  have h0 : openFrames c uses expected [] = ⟨[], none, uses, expected, []⟩ :=
    openFrames_of_lt (Nat.add_pos_right _ (by decide))
  refine ⟨[], List.prefix_append _ _, ?_⟩
  rw [h0]
  exact ⟨rfl, rfl, rfl, hl⟩

theorem tries_after_header {header : Bytes} (hl : locked.length = lockedLength none)
    (hu : c.unlock? (nonce uses) locked = some header)
    (h : Tries c (uses + 1) (some (announced header)) rest n tried) :
    Tries c uses none (locked ++ rest) n tried := by
  obtain ⟨front, hp, hr⟩ := h
  refine ⟨locked ++ front, ?_, ?_⟩
  · rw [List.append_assoc]
    exact (List.prefix_append_right_inj _).2 hp
  · rw [openFrames_header hl hu]
    exact hr

theorem tries_after_payload {m : Nat} {payload : Bytes} (hl : locked.length = lockedLength (some m))
    (hu : c.unlock? (nonce uses) locked = some payload)
    (h : Tries c (uses + 1) none rest n tried) :
    Tries c uses (some m) (locked ++ rest) n tried := by
  obtain ⟨front, hp, hr⟩ := h
  refine ⟨locked ++ front, ?_, ?_⟩
  · rw [List.append_assoc]
    exact (List.prefix_append_right_inj _).2 hp
  · rw [openFrames_payload hl hu]
    exact hr

end Tries

/-- Whatever is tried and opens, was locked with the same nonce. -/
def Authentic (c : Crypto.Aead) (payloads : List Bytes) (uses : Nat) (expected : Option Nat)
    (held : Bytes) : Prop :=
  ∀ n tried, Tries c uses expected held n tried → (c.unlock? (nonce n) tried).isSome →
    ∃ i m, (messages payloads)[i]? = some m ∧ nonce i = nonce n ∧ tried = c.lock (nonce i) m

/-- What opens next is the message of that number. -/
theorem message_of_unlock? {c : Crypto.Aead} {payloads : List Bytes} {uses : Nat}
    {expected : Option Nat} {locked rest opened : Bytes}
    (hf : Authentic c payloads uses expected (locked ++ rest))
    (hn : (messages payloads).length < 2 ^ 96) (hle : uses ≤ (messages payloads).length)
    (hl : locked.length = lockedLength expected)
    (hu : c.unlock? (nonce uses) locked = some opened) :
    (messages payloads)[uses]? = some opened := by
  obtain ⟨i, m, hi, hni, rfl⟩ := hf uses locked (tries_front hl) (by rw [hu]; rfl)
  have hil : i < (messages payloads).length := (List.getElem?_eq_some_iff.1 hi).1
  obtain rfl := nonce_injective hni (Nat.lt_trans hil hn) (Nat.lt_of_le_of_lt hle hn)
  rw [c.unlock?_lock] at hu
  rw [hi, hu]

/-- As long as nothing is forged, the frames that open are the frames that were locked: the number
of nonces used so far says which one is next, and whether its header or its payload. -/
theorem openFrames_of_authentic (c : Crypto.Aead) {payloads : List Bytes}
    (hn : (messages payloads).length < 2 ^ 96) (uses : Nat) (expected : Option Nat) (held : Bytes)
    (j : Nat) (hj : uses = 2 * j + if expected.isSome then 1 else 0)
    (hle : uses ≤ (messages payloads).length) (hf : Authentic c payloads uses expected held) :
    ∃ n, (openFrames c uses expected held).text = ((payloads.drop j).take n).flatten := by
  induction uses, expected, held using openFrames_induction c generalizing j with
  | short uses expected held hlt =>
    rw [openFrames_of_lt hlt]
    exact ⟨0, rfl⟩
  | refused uses expected locked rest hl hu =>
    rw [openFrames_of_refused hl hu]
    exact ⟨0, rfl⟩
  | header uses locked header rest hl hu ih =>
    rw [openFrames_header hl hu]
    have hm := message_of_unlock? hf hn hle hl hu
    refine ih j (congrArg (· + 1) hj) (List.getElem?_eq_some_iff.1 hm).1 fun n tried ht => ?_
    exact hf n tried (tries_after_header hl hu ht)
  | payload uses size locked payload rest hl hu ih =>
    rw [openFrames_payload hl hu]
    have hm := message_of_unlock? hf hn hle hl hu
    obtain ⟨n, ht⟩ := ih (j + 1) (congrArg (· + 1) hj) (List.getElem?_eq_some_iff.1 hm).1
      fun n tried ht => hf n tried (tries_after_payload hl hu ht)
    rw [hj] at hm
    obtain ⟨hlt, rfl⟩ := List.getElem?_eq_some_iff.1 ((messages_payload payloads j).symm.trans hm)
    refine ⟨n + 1, ?_⟩
    rw [List.drop_eq_getElem_cons hlt, List.take_succ_cons, List.flatten_cons, ← ht]

theorem SharedKey.authentic_of_unforged {key : SharedKey} {e : Entropy} {texts : List Bytes}
    {salt rest : Bytes} (hs : salt.length = key.suite.saltLength)
    (h : key.Unforged (key.sealings e texts) (salt ++ rest)) :
    Authentic (key.suite.aead (subkey key.master salt)) (payloads texts) 0 none rest := by
  intro n tried ht ho
  unfold Unforged at h
  rw [List.take_left' hs, List.drop_left' hs] at h
  obtain ⟨i, hi, he⟩ := List.mem_mapIdx.1 (h n tried ht ho)
  obtain ⟨hk, hni, hl⟩ := Sealing.mk.inj he
  refine ⟨i, _, List.getElem?_eq_getElem hi, hni, ?_⟩
  rw [← hl, hk]

/-- Whatever an attacker makes of an authenticated stream, and however it is cut: unless something
was forged, what has been opened is some of the frames that were sent, from the first one on; and
after a failure nothing is opened any more. -/
theorem SharedKey.stream_integrity {key : SharedKey} (hk : key.suite.authenticates = true)
    (e : Entropy) (texts pieces : List Bytes) (hn : (key.sealings e texts).length < 2 ^ 96)
    (hf : key.Unforged (key.sealings e texts) pieces.flatten) :
    let answers := ((key.pair false).decryptor.feed pieces).1
    (∃ n, answers.flatMap (·.1) = ((payloads texts).take n).flatten) ∧
      answers.Pairwise fun a b => a.2.isSome → b.1 = [] ∧ b.2.isSome := by
  intro answers
  have ht : answers.flatMap (·.1) = (({ key } : Opener).update pieces.flatten).1 :=
    Decryptor.text_feed_stream (Opener.update_nil key) pieces
  refine ⟨?_, (Decryptor.feed_pairwise _ pieces).imp fun h ha => ?_⟩
  · rw [ht]
    by_cases hl : pieces.flatten.length < key.suite.saltLength
    · rw [Opener.update_short hl]
      exact ⟨0, rfl⟩
    · have hs : (pieces.flatten.take key.suite.saltLength).length = key.suite.saltLength :=
        List.length_take_of_le (Nat.not_lt.1 hl)
      rw [← List.take_append_drop key.suite.saltLength pieces.flatten] at hf ⊢
      rw [sealings, List.length_mapIdx] at hn
      rw [Opener.update_salt hs, keyed_of_authenticates hk]
      exact openFrames_of_authentic _ hn 0 none _ 0 rfl (Nat.zero_le _) (authentic_of_unforged hs hf)
  · rw [h ha]
    exact ⟨rfl, rfl⟩

section Spoiled

variable {c : Crypto.Aead} {uses n : Nat} {locked rest tried : Bytes}

/-- What is tried is in front, or the front has opened. -/
theorem Tries.front_or_rest {expected : Option Nat} (hl : locked.length = lockedLength expected)
    (h : Tries c uses expected (locked ++ rest) n tried) :
    (n = uses ∧ tried = locked) ∨ ∃ front, front ++ tried <+: rest ∧
      let r := openFrames c uses expected (locked ++ front)
      r.failure = none ∧ r.held = [] ∧ r.uses = n ∧ tried.length = lockedLength r.expected := by
  obtain ⟨front, hp, hr⟩ := h
  by_cases hlt : front.length < lockedLength expected
  · rw [openFrames_of_lt hlt] at hr
    obtain ⟨-, rfl, rfl, ht⟩ := hr
    have hle := Nat.le_of_eq (ht.trans hl.symm)
    have hpr := List.prefix_of_prefix_length_le hp (List.prefix_append locked rest) hle
    exact .inl ⟨rfl, hpr.eq_of_length (ht.trans hl.symm)⟩
  · have hle : locked.length ≤ front.length := hl ▸ Nat.not_lt.1 hlt
    obtain ⟨later, rfl⟩ := List.prefix_of_prefix_length_le (List.prefix_append locked rest)
      ((List.prefix_append front tried).trans hp) hle
    rw [List.append_assoc] at hp
    exact .inr ⟨later, (List.prefix_append_right_inj _).1 hp, hr⟩

theorem unlock?_of_spoiled (c : Crypto.Aead) (nonce body : Bytes) :
    c.unlock? nonce (body ++ (c.tag nonce body).map (· + 1)) = none := by
  have hl : ((c.tag nonce body).map (· + 1)).length = Crypto.tagLength := by
    rw [List.length_map, c.length_tag]
  have hn : (body ++ (c.tag nonce body).map (· + 1)).length - Crypto.tagLength = body.length := by
    rw [List.length_append, hl, Nat.add_sub_cancel]
  have ht : c.tag nonce body ≠ (c.tag nonce body).map (· + 1) := by
    have hc := c.length_tag nonce body
    cases ht : c.tag nonce body with
    | nil => rw [ht] at hc; cases hc
    | cons x rest =>
      intro he
      have hx : x = x + 1 := (List.cons.inj he).1
      simp at hx
  rw [Crypto.Aead.unlock?, hn, List.take_left, List.drop_left, if_neg ht, ite_self]

end Spoiled

theorem payloads_singleton {payload : Bytes} (h : payload ≠ []) (hl : payload.length ≤ maxPayload) :
    payloads [payload] = [payload] := by
  have hm : maxPayload ≠ 0 := by decide
  rw [payloads, List.flatMap_singleton, Bytes.pieces, dif_neg (not_or.2 ⟨h, hm⟩)]
  dsimp only
  rw [List.take_of_length_le hl, List.drop_of_length_le hl, Bytes.pieces, dif_pos (.inl rfl)]

/-- A frame whose payload has another tag is not a forgery: it does not open. -/
theorem SharedKey.unforged_of_spoiled (key : SharedKey) (e : Entropy) {payload : Bytes}
    (hp : payload ≠ []) (hl : payload.length ≤ maxPayload) :
    let salt := e.draw key.suite.saltLength
    let c := key.suite.aead (subkey key.master salt)
    let header := Bytes.ofWord (UInt16.ofNat payload.length)
    let body := c.crypt (nonce 1) payload
    key.Unforged (key.sealings e [payload])
      (salt ++ (c.lock (nonce 0) header ++ (body ++ (c.tag (nonce 1) body).map (· + 1)))) := by
  intro salt c header body
  have hs : salt.length = key.suite.saltLength := e.length_draw _
  unfold Unforged
  rw [List.take_left' hs, List.drop_left' hs]
  intro _ _ n tried ht ho
  have hh : (c.lock (nonce 0) header).length = lockedLength none := c.length_lock _ _
  have hb : (body ++ (c.tag (nonce 1) body).map (· + 1)).length =
      lockedLength (some payload.length) := by
    rw [List.length_append, List.length_map, c.length_tag, c.length_crypt]
    rfl
  have hu := unlock?_of_spoiled c (nonce 1) body
  obtain ⟨rfl, rfl⟩ | ⟨front, hpr, hr⟩ := ht.front_or_rest hh
  · rw [sealings, payloads_singleton hp hl]
    exact List.mem_cons_self
  · rw [openFrames_header hh (c.unlock?_lock _ _), announced_ofWord hl] at hr
    rw [← List.append_nil (body ++ _)] at hpr
    obtain ⟨rfl, rfl⟩ | ⟨later, -, hr⟩ := Tries.front_or_rest hb ⟨front, hpr, hr⟩
    · rw [hu] at ho
      cases ho
    · rw [openFrames_of_refused hb hu] at hr
      cases hr.1

/-- A stream with a spoiled frame: nothing is opened of it. -/
theorem SharedKey.stream_integrity_of_spoiled :
    let key := SharedKey.ofSecret .aes128Gcm "secret"
    let salt := ({} : Entropy).draw 16
    let c := Crypto.Gcm.aead (subkey key.master salt)
    let body := c.crypt (nonce 1) [1, 2, 3]
    let stream := salt ++ (c.lock (nonce 0) [0, 3] ++ (body ++ (c.tag (nonce 1) body).map (· + 1)))
    let answers := ((key.pair false).decryptor.feed [stream]).1
    key.suite.authenticates = true ∧ (key.sealings {} [[1, 2, 3]]).length < 2 ^ 96 ∧
      key.Unforged (key.sealings {} [[1, 2, 3]]) [stream].flatten ∧
      ∃ n, answers.flatMap (·.1) = ([[1, 2, 3]].take n).flatten := by
  intro key salt c body stream answers
  have hp : payloads [[1, 2, 3]] = [[1, 2, 3]] := payloads_singleton (by decide) (by decide)
  have hn : (key.sealings {} [[1, 2, 3]]).length < 2 ^ 96 := by
    rw [sealings, List.length_mapIdx, hp]
    decide
  have hf : key.Unforged (key.sealings {} [[1, 2, 3]]) [stream].flatten := by
    rw [List.flatten_singleton]
    exact unforged_of_spoiled key {} (by decide) (by decide)
  obtain ⟨ht, -⟩ := stream_integrity rfl {} [[1, 2, 3]] [stream] hn hf
  rw [hp] at ht
  exact ⟨rfl, hn, hf, ht⟩

end Cipher

end SocksChain
