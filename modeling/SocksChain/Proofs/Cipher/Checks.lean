import SocksChain.Cipher.Checked
import SocksChain.Proofs.Cipher.Datagram
import SocksChain.Proofs.Cipher.Schedule

/-!
No check ever finds anything that sealing and opening do not report themselves. A key made from a
secret has the length that its suite wants, a stream that has no key yet holds less than its salt,
and no payload is announced that a frame could not hold; so the sessions with every check in place
do what the sessions without them do.
-/

namespace SocksChain.Cipher

/-- A key of a suite that is there, as long as the suite wants it. -/
structure SharedKey.Fits (k : SharedKey) (b : Build) : Prop where
  offered : b.offers k.suite = true
  length_master : k.master.length = k.suite.keyLength

theorem SharedKey.fits_ofSecret {b : Build} {suite : Suite} (h : b.offers suite = true)
    (secret : String) : (ofSecret suite secret).Fits b :=
  ⟨h, length_masterKey _ _⟩

namespace Checked

variable {b : Build} {k : SharedKey}

theorem bind_of_eq_ok {α β : Type} {x : Except Breach α} {a : α} (h : x = .ok a)
    (f : α → Except Breach β) : (x >>= f) = f a := by
  rw [h]
  rfl

theorem cut_of_le {held : Bytes} {n : Nat} (h : n ≤ held.length) :
    cut held n = .ok (held.take n, held.drop n) := if_pos h

theorem cut_append {front rest : Bytes} {n : Nat} (h : front.length = n) :
    cut (front ++ rest) n = .ok (front, rest) := by
  rw [cut_of_le (by rw [List.length_append]; omega), List.take_left' h, List.drop_left' h]

theorem cut_min (text : Bytes) (n : Nat) :
    cut text (min n text.length) = .ok (text.take n, text.drop n) := by
  rw [cut_of_le (Nat.min_le_right _ _), ← List.take_eq_take_min]
  rcases Nat.le_total n text.length with h | h
  · rw [Nat.min_eq_left h]
  · rw [Nat.min_eq_right h, List.drop_length, List.drop_of_length_le h]

theorem applyBehind_eq (r : Crypto.Rc4) (buffer text : Bytes) :
    applyBehind r buffer text = .ok (buffer ++ (r.apply text).1, (r.apply text).2) := by
  exact bind_of_eq_ok (cut_append rfl) _

section Keys

theorem family_eq (h : k.Fits b) : family b k.suite =
    .ok (if k.suite.authenticates then .frames else .keystream) := by
  have ho := h.offered
  unfold Build.offers at ho
  unfold family
  cases ha : k.suite.authenticates with
  | true => rfl
  | false =>
    rw [ha, Bool.false_or] at ho
    simp only [ho, Bool.false_eq_true, if_false, if_true]

/-- What is derived from a master key is as long as the cipher wants it. -/
theorem frameCipher_eq (h : k.Fits b) (ha : k.suite.authenticates = true) (salt : Bytes) :
    frameCipher k salt = .ok (k.suite.aead (subkey k.master salt)) := by
  obtain ⟨suite, master⟩ := k
  have hm := h.length_master
  have hsub : (subkey master salt).length = master.length := Crypto.Sha1.length_derive _ _ _ _
  have hexpand : expand master salt = .ok (subkey master salt) := by
    refine if_pos ?_
    cases suite <;> simp only [Suite.keyLength] at hm <;> omega
  cases suite with
  | rc4Md5 => cases ha
  | _ => exact (bind_of_eq_ok hexpand _).trans (if_pos (hsub.trans hm))

theorem keystream_eq (k : SharedKey) (salt : Bytes) :
    keystream k salt = .ok (.ofKey (Crypto.Md5.hash (k.master ++ salt))) := by
  unfold keystream
  exact if_pos (Crypto.Md5.length_hash _)

theorem keyed_eq (h : k.Fits b) (salt : Bytes) : keyed b k salt = .ok (k.keyed salt) := by
  refine (bind_of_eq_ok (family_eq h) _).trans ?_
  cases ha : k.suite.authenticates with
  | true =>
    rw [SharedKey.keyed_of_authenticates ha]
    exact bind_of_eq_ok (frameCipher_eq h ha salt) _
  | false =>
    rw [SharedKey.keyed_of_not_authenticates ha]
    exact bind_of_eq_ok (keystream_eq k salt) _

end Keys

section Sealing

theorem lock_eq {c : Crypto.Aead} {text : Bytes} (uses : Nat) (h : text.length ≤ b.longestText) :
    lock b c uses text = .ok (c.lock (nonce uses) text) := if_pos h

/-- A frame is cut off the front of a text, as long as there is one. -/
theorem lockFrames_step (c : Crypto.Aead) (uses : Nat) {text : Bytes} (ht : text ≠ []) :
    lockFrames b c uses text = do
      let head ← lock b c uses (Bytes.ofWord (UInt16.ofNat (text.take maxPayload).length))
      let body ← lock b c (uses + 1) (text.take maxPayload)
      let (later, uses) ← lockFrames b c (uses + 2) (text.drop maxPayload)
      return (head ++ body ++ later, uses) := by
  rw [lockFrames, dif_neg ht, List.length_take]
  dsimp only
  split
  · rename_i h
    cases (cut_min text maxPayload).symm.trans h
  · rename_i h
    cases (cut_min text maxPayload).symm.trans h
    rfl

theorem lockFrames_eq (hb : maxPayload ≤ b.longestText) (c : Crypto.Aead) (uses : Nat)
    (text : Bytes) : lockFrames b c uses text =
      .ok (Cipher.lockFrames c uses (Bytes.pieces maxPayload text),
        uses + 2 * (Bytes.pieces maxPayload text).length) := by
  induction hn : text.length using Nat.strongRecOn generalizing uses text with
  | ind n ih =>
    subst hn
    have hmax : 2 ≤ maxPayload := by decide
    rw [Bytes.pieces]
    by_cases ht : text = []
    · rw [lockFrames, dif_pos ht, dif_pos (.inl ht)]
      rfl
    · have hpos := List.length_pos_iff.mpr ht
      have hrest : (text.drop maxPayload).length < text.length := by
        rw [List.length_drop]
        omega
      have hsize := List.length_take_le maxPayload text
      rw [dif_neg (not_or.mpr ⟨ht, by omega⟩), lockFrames_step c uses ht,
        lock_eq uses (Nat.le_trans hmax hb), lock_eq (uses + 1) (Nat.le_trans hsize hb),
        ih _ hrest (uses + 2) _ rfl, List.length_cons, Nat.mul_add_one, ← Nat.add_assoc,
        Nat.add_right_comm]
      rfl

theorem sealStream_behind_eq (hb : maxPayload ≤ b.longestText) (s : Sealer) (text sent : Bytes)
    (k : Keyed) (e : Entropy) : sealStream.behind b s text sent k e =
      .ok (sent ++ (Sealer.lock text k).1, { s with keyed := some (Sealer.lock text k).2 }, e) := by
  cases k with
  | frames c uses => exact bind_of_eq_ok (lockFrames_eq hb c uses text) _
  | keystream r => exact bind_of_eq_ok (applyBehind_eq r sent text) _

theorem sealStream_eq (hb : maxPayload ≤ b.longestText) {s : Sealer} (h : s.key.Fits b)
    (e : Entropy) (text : Bytes) : sealStream b s e text = .ok (s.update e text) := by
  unfold sealStream Sealer.update
  cases s.keyed with
  | some k => exact sealStream_behind_eq hb s text [] k e
  | none => exact (bind_of_eq_ok (keyed_eq h _) _).trans (sealStream_behind_eq hb s text _ _ _)

theorem sealDatagram_eq (h : k.Fits b) (salt : Bytes) {payload : Bytes}
    (hp : k.suite.authenticates = true → payload.length ≤ b.longestText) :
    sealDatagram b k salt payload = .ok (Datagram.lock k salt payload) := by
  refine (bind_of_eq_ok (keyed_eq h salt) _).trans ?_
  unfold Datagram.lock
  cases ha : k.suite.authenticates with
  | true =>
    rw [SharedKey.keyed_of_authenticates ha]
    exact bind_of_eq_ok (lock_eq 0 (hp ha)) _
  | false =>
    rw [SharedKey.keyed_of_not_authenticates ha]
    exact bind_of_eq_ok (applyBehind_eq _ salt payload) _

/-- Whether a session can take a text: a datagram is locked as a whole. -/
def Takes (b : Build) (s : Encryptor) (text : Bytes) : Prop :=
  s.isDatagram = true → s.key.suite.authenticates = true → text.length ≤ b.longestText

theorem encrypt_eq (hb : maxPayload ≤ b.longestText) {s : Encryptor} (h : s.key.Fits b)
    (e : Entropy) {text : Bytes} (ht : Takes b s text) :
    encrypt b s e text = .ok (s.update e text) := by
  cases s with
  | stream sealer => exact bind_of_eq_ok (sealStream_eq hb h e text) _
  | datagram k => exact bind_of_eq_ok (sealDatagram_eq h _ (ht rfl)) _

theorem isDatagram_update (s : Encryptor) (e : Entropy) (text : Bytes) :
    (s.update e text).2.1.isDatagram = s.isDatagram := by
  cases s <;> rfl

theorem encryptAll_eq (hb : maxPayload ≤ b.longestText) {s : Encryptor} (h : s.key.Fits b)
    (e : Entropy) {texts : List Bytes} (ht : ∀ text ∈ texts, Takes b s text) :
    encryptAll b s e texts = .ok (s.feed e texts) := by
  induction texts generalizing s e with
  | nil => rfl
  | cons text rest ih =>
    obtain ⟨htext, hrest⟩ := List.forall_mem_cons.mp ht
    have hkey := s.key_update e text
    have hmode := isDatagram_update s e text
    have hlater := ih (s := (s.update e text).2.1) (hkey ▸ h) (s.update e text).2.2 fun t hm => by
      rw [Takes, hmode, hkey]
      exact hrest t hm
    exact (bind_of_eq_ok (encrypt_eq hb h e htext) _).trans (bind_of_eq_ok hlater _)

end Sealing

section Opening

/-- A failure of opening, as it is reported. -/
def reported (failure : Option CipherCause) : Option Breach :=
  failure.map fun cause => .reported (.cipher cause)

theorem unlock_eq {locked : Bytes} (c : Crypto.Aead) (uses : Nat)
    (ht : Crypto.tagLength ≤ locked.length) (hl : locked.length ≤ b.longestText + Crypto.tagLength) :
    unlock b c uses locked = authentic (c.unlock? (nonce uses) locked) := by
  rw [unlock, if_neg (Nat.not_lt.mpr ht), if_neg (by omega)]

theorem announced_eq {header : Bytes} (h : header.length = 2) :
    announced header = .ok (Cipher.announced header) := by
  match header, h with
  | [high, low], _ =>
    have hh := high.toNat_lt
    have hl := low.toNat_lt
    have hand : ∀ n, n &&& maxPayload = n % (maxPayload + 1) :=
      fun n => Nat.and_two_pow_sub_one_eq_mod n 14
    simp only [announced, Cipher.announced, hand, Bytes.word, Bytes.ofBigEndian, List.foldl_cons,
      List.foldl_nil, UInt16.toNat_ofNat', Nat.zero_mul, Nat.zero_add]
    congr 2
    omega

theorem announced_le (header : Bytes) : Cipher.announced header ≤ maxPayload :=
  Nat.le_of_lt_succ (Nat.mod_lt _ (Nat.succ_pos _))

variable {c : Crypto.Aead} {uses : Nat} {expected : Option Nat} {locked rest held : Bytes}

theorem openFrames_of_lt (h : held.length < lockedLength expected) :
    openFrames b c uses expected held = ⟨[], none, uses, expected, held⟩ := by
  rw [openFrames.eq_def]
  exact if_pos h

/-- Once enough is there, it is unlocked, and then it is a header or a payload. -/
theorem openFrames_step : locked.length = lockedLength expected →
    openFrames b c uses expected (locked ++ rest) =
      match unlock b c uses locked, expected with
      | .error breach, _ => ⟨[], some breach, uses, expected, locked ++ rest⟩
      | .ok header, none =>
        match announced header with
        | .error breach => ⟨[], some breach, uses, expected, locked ++ rest⟩
        | .ok n => openFrames b c (uses + 1) (some n) rest
      | .ok payload, some _ =>
        { openFrames b c (uses + 1) none rest with
          text := payload ++ (openFrames b c (uses + 1) none rest).text } := by
  intro hl
  have hcut : cut (locked ++ rest) (expected.getD 2 + Crypto.tagLength) = .ok (locked, rest) :=
    cut_append hl
  have hlong : ¬ (locked ++ rest).length < expected.getD 2 + Crypto.tagLength := by
    rw [List.length_append, hl, lockedLength]
    omega
  rw [openFrames.eq_def]
  dsimp only
  rw [if_neg hlong]
  split
  · rename_i h
    cases hcut.symm.trans h
  · rename_i h
    cases hcut.symm.trans h
    rfl

/-- No header and no payload that is expected is too short or too long for the cipher. -/
theorem unlock_expected_eq (hb : maxPayload ≤ b.longestText)
    (he : ∀ n, expected = some n → n ≤ maxPayload) (hl : locked.length = lockedLength expected) :
    unlock b c uses locked = authentic (c.unlock? (nonce uses) locked) := by
  have hexpected : expected.getD 2 ≤ maxPayload := by
    cases expected with
    | none => exact (by decide : 2 ≤ maxPayload)
    | some n => exact he n rfl
  unfold lockedLength at hl
  exact unlock_eq c uses (by omega) (by omega)

/-- What frames come to if no check finds anything. -/
def ofOpened (r : Cipher.Opened) : Opened :=
  ⟨r.text, reported r.failure, r.uses, r.expected, r.held⟩

theorem openFrames_eq (hb : maxPayload ≤ b.longestText) (c : Crypto.Aead) (uses : Nat)
    (expected : Option Nat) (held : Bytes) (he : ∀ n, expected = some n → n ≤ maxPayload) :
    openFrames b c uses expected held = ofOpened (Cipher.openFrames c uses expected held) := by
  induction uses, expected, held using openFrames_induction c with
  | short uses expected held hlt =>
    rw [openFrames_of_lt hlt, Cipher.openFrames_of_lt hlt]
    rfl
  | refused uses expected locked rest hl hu =>
    rw [openFrames_step hl, unlock_expected_eq hb he hl, hu, openFrames_of_refused hl hu]
    rfl
  | header uses locked header rest hl hu ih =>
    have hheader : header.length = 2 := by
      have := Crypto.Aead.length_of_unlock? hu
      rw [hl] at this
      exact Nat.add_right_cancel this
    rw [openFrames_step hl, unlock_expected_eq hb he hl, hu, openFrames_header hl hu]
    simp only [authentic, announced_eq hheader]
    exact ih fun n hn => Option.some.inj hn ▸ announced_le header
  | payload uses n locked payload rest hl hu ih =>
    rw [openFrames_step hl, unlock_expected_eq hb he hl, hu, openFrames_payload hl hu]
    simp only [authentic, ih nofun]
    rfl

theorem expected_openFrames_le (c : Crypto.Aead) (uses : Nat) (expected : Option Nat) (held : Bytes)
    (he : ∀ n, expected = some n → n ≤ maxPayload) :
    ∀ n, (Cipher.openFrames c uses expected held).expected = some n → n ≤ maxPayload := by
  induction uses, expected, held using openFrames_induction c with
  | short uses expected held hlt =>
    rw [Cipher.openFrames_of_lt hlt]
    exact he
  | refused uses expected locked rest hl hu =>
    rw [openFrames_of_refused hl hu]
    exact he
  | header uses locked header rest hl hu ih =>
    rw [openFrames_header hl hu]
    exact ih fun n hn => Option.some.inj hn ▸ announced_le header
  | payload uses n locked payload rest hl hu ih =>
    rw [openFrames_payload hl hu]
    exact ih nofun

theorem failure_openFrames (c : Crypto.Aead) (uses : Nat) (expected : Option Nat) (held : Bytes) :
    (Cipher.openFrames c uses expected held).failure = none ∨
      (Cipher.openFrames c uses expected held).failure = some .tagMismatch := by
  induction uses, expected, held using openFrames_induction c with
  | short uses expected held hlt =>
    rw [Cipher.openFrames_of_lt hlt]
    exact .inl rfl
  | refused uses expected locked rest hl hu =>
    rw [openFrames_of_refused hl hu]
    exact .inr rfl
  | header uses locked header rest hl hu ih =>
    rw [openFrames_header hl hu]
    exact ih
  | payload uses n locked payload rest hl hu ih =>
    rw [openFrames_payload hl hu]
    exact ih

end Opening

section Streams

/-- An answer with its failure as it is reported. -/
def reporting {σ : Type} (r : Bytes × Option CipherCause × σ) : Bytes × Option Breach × σ :=
  (r.1, reported r.2.1, r.2.2)

/-- What holds of every session that opens a stream. -/
structure Sound (b : Build) (s : Opener) : Prop where
  fits : s.key.Fits b
  waits : s.keyed = none → s.held.length < s.key.suite.saltLength
  expects : ∀ n, s.expected = some n → n ≤ maxPayload
  frames : ∀ c uses, s.keyed = some (.frames c uses) → s.key.suite.authenticates = true

variable {s : Opener}

theorem sound_fresh (h : k.Fits b) : Sound b { key := k } where
  fits := h
  waits _ := k.suite.saltLength_pos
  expects := nofun
  frames := nofun

theorem authenticates_of_keyed {c : Crypto.Aead} {uses : Nat} {salt : Bytes}
    (h : k.keyed salt = .frames c uses) : k.suite.authenticates = true := by
  refine Bool.not_eq_false _ ▸ fun ha => ?_
  cases (SharedKey.keyed_of_not_authenticates ha salt).symm.trans h

theorem Sound.unlock (h : Sound b s) {k : Keyed}
    (hk : ∀ c uses, k = .frames c uses → s.key.suite.authenticates = true) (held : Bytes) :
    Sound b (s.unlock k held).2.2 := by
  cases k with
  | frames c uses => exact ⟨h.fits, nofun, expected_openFrames_le c uses _ _ h.expects,
      fun _ _ _ => hk c uses rfl⟩
  | keystream r => exact ⟨h.fits, nofun, h.expects, nofun⟩

/-- What a step of opening preserves. -/
theorem Sound.update (h : Sound b s) (a : Bytes) : Sound b (s.update a).2.2 := by
  unfold Opener.update
  split
  · exact h
  · dsimp only
    split
    · rename_i k hk
      exact h.unlock (fun c uses he => h.frames c uses (he ▸ hk)) _
    · split
      · rename_i hk hlt
        rw [List.length_take] at hlt
        exact ⟨h.fits, fun _ => by dsimp only; omega, h.expects, h.frames⟩
      · exact h.unlock (fun c uses => authenticates_of_keyed) _

theorem openBehind_eq (hb : maxPayload ≤ b.longestText) (h : Sound b s) (k : Keyed)
    (held : Bytes) : openBehind b s k held = reporting (s.unlock k held) := by
  cases k with
  | frames c uses =>
    simp only [openBehind, openFrames_eq hb c uses s.expected held h.expects]
    cases hf : (Cipher.openFrames c uses s.expected held).failure <;>
      simp only [reporting, Opener.unlock, ofOpened, hf] <;> rfl
  | keystream r =>
    simp only [openBehind, applyBehind_eq]
    rfl

theorem start_eq (h : Sound b s) (hk : s.keyed = none) (received : Bytes) :
    start b s received = .ok (
      if (s.held ++ received).length < s.key.suite.saltLength then .short (s.held ++ received)
      else .keyed (s.key.keyed ((s.held ++ received).take s.key.suite.saltLength))
        ((s.held ++ received).drop s.key.suite.saltLength)) := by
  refine (bind_of_eq_ok (family_eq h.fits) _).trans ?_
  cases ha : s.key.suite.authenticates with
  | true =>
    by_cases hlt : (s.held ++ received).length < s.key.suite.saltLength
    · simp only [if_true, if_pos hlt]
      rfl
    · simp only [if_true, if_neg hlt, SharedKey.keyed_of_authenticates ha]
      exact (bind_of_eq_ok (cut_of_le (Nat.not_lt.mp hlt)) _).trans
        (bind_of_eq_ok (frameCipher_eq h.fits ha _) _)
  | false =>
    have hwaits := h.waits hk
    have hmissing : missing s.key.suite.saltLength s.held.length =
        .ok (s.key.suite.saltLength - s.held.length) := if_pos (Nat.le_of_lt hwaits)
    have hsalt : s.held ++ received.take (s.key.suite.saltLength - s.held.length) =
        (s.held ++ received).take s.key.suite.saltLength := by
      rw [List.take_append, List.take_of_length_le (Nat.le_of_lt hwaits)]
    have hbehind : received.drop (s.key.suite.saltLength - s.held.length) =
        (s.held ++ received).drop s.key.suite.saltLength := by
      rw [List.drop_append, List.drop_of_length_le (Nat.le_of_lt hwaits), List.nil_append]
    refine (bind_of_eq_ok hmissing _).trans ((bind_of_eq_ok (cut_min _ _) _).trans ?_)
    simp only [hsalt, hbehind, SharedKey.keyed_of_not_authenticates ha]
    by_cases hlt : (s.held ++ received).length < s.key.suite.saltLength
    · rw [List.take_of_length_le (Nat.le_of_lt hlt), if_pos hlt, if_pos hlt]
      rfl
    · rw [List.length_take_of_le (Nat.not_lt.mp hlt), if_neg (Nat.lt_irrefl _), if_neg hlt]
      exact bind_of_eq_ok (keystream_eq _ _) _

/-- A stream is opened as it is without the checks. -/
theorem openStream_eq (hb : maxPayload ≤ b.longestText) (h : Sound b s) (received : Bytes) :
    openStream b s received = reporting (s.update received) := by
  unfold openStream Opener.update
  by_cases hf : s.failed = true
  · rw [if_pos hf, if_pos hf]
    rfl
  · rw [if_neg hf, if_neg hf]
    cases hk : s.keyed with
    | some k => exact openBehind_eq hb h k _
    | none =>
      rw [start_eq h hk]
      by_cases hlt : (s.held ++ received).length < s.key.suite.saltLength
      · simp only [if_pos hlt, List.take_of_length_le (Nat.le_of_lt hlt)]
        rfl
      · simp only [if_neg hlt, List.length_take_of_le (Nat.not_lt.mp hlt), Nat.lt_irrefl]
        exact openBehind_eq hb h _ _

end Streams

section Datagrams

variable {packet : Bytes}

theorem openDatagram_frames (h : k.Fits b) (ha : k.suite.authenticates = true)
    (packet : Bytes) : openDatagram b k packet =
      if packet.length < k.suite.saltLength + Crypto.tagLength then refuse .shortDatagram
      else unlock b (k.suite.aead (subkey k.master (packet.take k.suite.saltLength))) 0
        (packet.drop k.suite.saltLength) := by
  refine (bind_of_eq_ok (family_eq h) _).trans ?_
  simp only [ha, if_true]
  by_cases hlt : packet.length < k.suite.saltLength + Crypto.tagLength
  · rw [if_pos hlt, if_pos hlt]
    rfl
  · rw [if_neg hlt, if_neg hlt]
    have hcut : cut packet k.suite.saltLength = _ := cut_of_le (by omega)
    exact (bind_of_eq_ok hcut _).trans (bind_of_eq_ok (frameCipher_eq h ha _) _)

theorem openDatagram_keystream (h : k.Fits b) (ha : k.suite.authenticates = false)
    (packet : Bytes) : openDatagram b k packet =
      if packet.length < k.suite.saltLength then refuse .missingIv
      else .ok ((Crypto.Rc4.ofKey (Crypto.Md5.hash
        (k.master ++ packet.take k.suite.saltLength))).apply (packet.drop k.suite.saltLength)).1 := by
  refine (bind_of_eq_ok (family_eq h) _).trans ?_
  simp only [ha, Bool.false_eq_true, if_false]
  by_cases hlt : packet.length < k.suite.saltLength
  · rw [if_pos hlt, if_pos hlt]
    rfl
  · rw [if_neg hlt, if_neg hlt]
    have hcut : cut packet k.suite.saltLength = _ := cut_of_le (Nat.not_lt.mp hlt)
    exact (bind_of_eq_ok hcut _).trans
      ((bind_of_eq_ok (keystream_eq _ _) _).trans (bind_of_eq_ok (applyBehind_eq _ _ _) _))

/-- A datagram that is not too long for the cipher is opened as it is without the checks. -/
theorem openDatagram_eq (h : k.Fits b)
    (hl : k.suite.authenticates = true → packet.length ≤ b.longestText) :
    openDatagram b k packet = match Datagram.unlock k packet with
      | .ok text => .ok text
      | .error cause => refuse cause := by
  unfold Datagram.unlock
  cases ha : k.suite.authenticates with
  | true =>
    rw [openDatagram_frames h ha]
    simp only [Bool.true_and, decide_eq_true_eq]
    by_cases hlt : packet.length < k.suite.saltLength + Crypto.tagLength
    · rw [if_pos hlt, if_pos hlt]
    · have hlocked := List.length_drop (l := packet) (i := k.suite.saltLength)
      have hle := hl ha
      rw [if_neg hlt, if_neg hlt, if_neg (by omega), SharedKey.keyed_of_authenticates ha,
        unlock_eq _ 0 (by omega) (by omega)]
      dsimp only
      cases Crypto.Aead.unlock? _ (nonce 0) (packet.drop k.suite.saltLength) <;> rfl
  | false =>
    rw [openDatagram_keystream h ha]
    simp only [Bool.false_and, Bool.false_eq_true, if_false]
    by_cases hlt : packet.length < k.suite.saltLength
    · rw [if_pos hlt, if_pos hlt]
    · rw [if_neg hlt, if_neg hlt, SharedKey.keyed_of_not_authenticates ha]

end Datagrams

end Checked

end SocksChain.Cipher
