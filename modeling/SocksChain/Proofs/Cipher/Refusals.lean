import SocksChain.Proofs.Cipher.Checks

/-!
What can go wrong in a session. A session that seals never fails, and one that opens is closed only
by a tag that does not fit or by a datagram that is too short. No key is ever of the wrong length,
nothing is ever cut where there is nothing, and no suite is ever missing.
-/

namespace SocksChain.Cipher

/-- The texts of the failures that can close a session that opens. -/
def Suite.refusals (suite : Suite) (datagrams : Bool) : List String :=
  match datagrams, suite.authenticates with
  | false, true => ["authentication tag mismatch"]
  | false, false => []
  | true, true => ["datagram too short", "authentication tag mismatch"]
  | true, false => ["datagram shorter than iv"]

theorem Opener.key_update (s : Opener) (a : Bytes) : (s.update a).2.2.key = s.key := by
  cases hf : s.failed with
  | true => rw [update_of_failed hf]
  | false =>
    obtain ⟨ha, -⟩ | ⟨k, held, ha, -⟩ := update_cases hf a
    · rw [ha]
    · rw [ha]
      cases k <;> rfl

namespace Checked

/-- What a session answers that can be closed by failures with the given texts only: nothing goes
wrong until one of these failures is reported, and from then on the session is closed. -/
inductive ClosedOnlyBy (texts : List String) : List (Option Breach) → Prop
  | nil : ClosedOnlyBy texts []
  | opens {later : List (Option Breach)} :
      ClosedOnlyBy texts later → ClosedOnlyBy texts (none :: later)
  | refuses {cause : CipherCause} (n : Nat) : cause.message ∈ texts →
      ClosedOnlyBy texts (some (.reported (.cipher cause)) ::
        List.replicate n (some (.reported (.cipher .sessionClosed))))

variable {b : Build} {k : SharedKey} {s : Decryptor}

/-- What holds of every session that opens. -/
def Upheld (b : Build) : Decryptor → Prop
  | .stream o => Sound b o
  | .datagram k _ => k.Fits b

/-- What a session is when it has taken a piece: still a session of its kind, and of its key. -/
structure Continues (b : Build) (s s' : Decryptor) : Prop where
  upheld : Upheld b s'
  key : s'.key = s.key
  mode : s'.isDatagram = s.isDatagram

/-- A failure that can close a session, as it is reported. -/
def Refusal (s : Decryptor) (breach : Option Breach) : Prop :=
  ∃ cause : CipherCause, cause.message ∈ s.key.suite.refusals s.isDatagram ∧
    breach = some (.reported (.cipher cause))

section Streams

variable {o : Opener}

theorem unlock_goes_on_or_refuses {k : Keyed} (hf : o.failed = false)
    (hk : ∀ c uses, k = .frames c uses → o.key.suite.authenticates = true) (held : Bytes) :
    ((o.unlock k held).2.1 = none ∧ (o.unlock k held).2.2.failed = false) ∨
      (o.key.suite.authenticates = true ∧ (o.unlock k held).2.1 = some .tagMismatch) := by
  cases k with
  | frames c uses =>
    rcases failure_openFrames c uses o.expected held with hn | ht
    · exact .inl ⟨hn, congrArg Option.isSome hn⟩
    · exact .inr ⟨hk c uses rfl, ht⟩
  | keystream r => exact .inl ⟨rfl, hf⟩

/-- A stream that is not closed goes on, or a frame of it is refused. -/
theorem update_goes_on_or_refuses (h : Sound b o) (hf : o.failed = false) (a : Bytes) :
    ((o.update a).2.1 = none ∧ (o.update a).2.2.failed = false) ∨
      (o.key.suite.authenticates = true ∧ (o.update a).2.1 = some .tagMismatch) := by
  unfold Opener.update
  rw [if_neg (by rw [hf]; exact Bool.false_ne_true)]
  dsimp only
  split
  · rename_i k hk
    exact unlock_goes_on_or_refuses hf (fun c uses he => h.frames c uses (he ▸ hk)) _
  · split
    · exact .inl ⟨rfl, hf⟩
    · exact unlock_goes_on_or_refuses hf (fun c uses => authenticates_of_keyed) _

end Streams

section Datagrams

theorem decrypt_of_ok {packet text : Bytes} (h : openDatagram b k packet = .ok text) :
    decrypt b (.datagram k false) packet = (text, none, .datagram k false) := by
  simp only [decrypt, h]

theorem decrypt_of_error {packet : Bytes} {breach : Breach}
    (h : openDatagram b k packet = .error breach) :
    decrypt b (.datagram k false) packet = ([], some breach, .datagram k true) := by
  simp only [decrypt, h]

theorem openDatagram_cases (h : k.Fits b) (packet : Bytes) :
    (∃ text, openDatagram b k packet = .ok text) ∨
      ∃ cause, cause.message ∈ k.suite.refusals true ∧ openDatagram b k packet = refuse cause := by
  cases ha : k.suite.authenticates with
  | true =>
    have hrefusals : k.suite.refusals true =
        ["datagram too short", "authentication tag mismatch"] := by
      simp only [Suite.refusals, ha]
    rw [openDatagram_frames h ha, hrefusals]
    by_cases hlt : packet.length < k.suite.saltLength + Crypto.tagLength
    · exact .inr ⟨.shortDatagram, by decide, if_pos hlt⟩
    · rw [if_neg hlt, unlock, if_neg (by rw [List.length_drop]; omega)]
      split
      · exact .inr ⟨.tagMismatch, by decide, rfl⟩
      · cases Crypto.Aead.unlock? _ (nonce 0) (packet.drop k.suite.saltLength) with
        | some text => exact .inl ⟨text, rfl⟩
        | none => exact .inr ⟨.tagMismatch, by decide, rfl⟩
  | false =>
    have hrefusals : k.suite.refusals true = ["datagram shorter than iv"] := by
      simp only [Suite.refusals, ha]
    rw [openDatagram_keystream h ha, hrefusals]
    by_cases hlt : packet.length < k.suite.saltLength
    · exact .inr ⟨.missingIv, by decide, if_pos hlt⟩
    · exact .inl ⟨_, if_neg hlt⟩

end Datagrams

section Runs

theorem decrypt_stream_eq (hb : maxPayload ≤ b.longestText) {o : Opener} (h : Sound b o)
    (piece : Bytes) :
    decrypt b (.stream o) piece = reporting ((Decryptor.stream o).update piece) := by
  simp only [decrypt, openStream_eq hb h]
  rfl

/-- What a step of opening preserves. -/
theorem continues_decrypt (hb : maxPayload ≤ b.longestText) (h : Upheld b s) (piece : Bytes) :
    Continues b s (decrypt b s piece).2.2 := by
  match s, h with
  | .stream o, h =>
    rw [decrypt_stream_eq hb h]
    exact ⟨h.update piece, o.key_update piece, rfl⟩
  | .datagram k true, h => exact ⟨h, rfl, rfl⟩
  | .datagram k false, h =>
    cases ho : openDatagram b k piece with
    | ok text =>
      rw [decrypt_of_ok ho]
      exact ⟨h, rfl, rfl⟩
    | error breach =>
      rw [decrypt_of_error ho]
      exact ⟨h, rfl, rfl⟩

/-- A session that is not closed goes on, or it refuses a piece and is closed. -/
theorem decrypt_goes_on_or_refuses (hb : maxPayload ≤ b.longestText) (h : Upheld b s)
    (hc : s.isClosed = false) (piece : Bytes) :
    ((decrypt b s piece).2.1 = none ∧ (decrypt b s piece).2.2.isClosed = false) ∨
      (Refusal s (decrypt b s piece).2.1 ∧ (decrypt b s piece).2.2.isClosed = true) := by
  match s, h, hc with
  | .stream o, h, hc =>
    rw [decrypt_stream_eq hb h]
    rcases update_goes_on_or_refuses h hc piece with ⟨hn, hf⟩ | ⟨ha, ht⟩
    · exact .inl ⟨congrArg reported hn, hf⟩
    · refine .inr ⟨⟨.tagMismatch, ?_, congrArg reported ht⟩, Opener.failed_update ht⟩
      simp only [Decryptor.key, Decryptor.isDatagram, Suite.refusals, ha]
      decide
  | .datagram k false, h, _ =>
    rcases openDatagram_cases h piece with ⟨text, ho⟩ | ⟨cause, hm, ho⟩
    · rw [decrypt_of_ok ho]
      exact .inl ⟨rfl, rfl⟩
    · rw [decrypt_of_error ho]
      exact .inr ⟨⟨cause, hm, rfl⟩, rfl⟩

theorem decrypt_of_closed (h : s.isClosed = true) (piece : Bytes) :
    decrypt b s piece = ([], some (.reported (.cipher .sessionClosed)), s) := by
  match s, h with
  | .stream o, h =>
    have ho : openStream b o piece = ([], some (.reported (.cipher .sessionClosed)), o) := if_pos h
    simp only [decrypt, ho]
  | .datagram k true, _ => rfl

/-- A closed session stays closed. -/
theorem decryptAll_of_closed (h : s.isClosed = true) (pieces : List Bytes) :
    decryptAll b s pieces =
      (List.replicate pieces.length ([], some (.reported (.cipher .sessionClosed))), s) := by
  induction pieces with
  | nil => rfl
  | cons piece rest ih =>
    simp only [decryptAll, decrypt_of_closed h, ih]
    rfl

/-- A whole run is closed by nothing but the refusals of its suite. -/
theorem closedOnlyBy_decryptAll (hb : maxPayload ≤ b.longestText) (h : Upheld b s)
    (hc : s.isClosed = false) (pieces : List Bytes) :
    ClosedOnlyBy (s.key.suite.refusals s.isDatagram) ((decryptAll b s pieces).1.map (·.2)) := by
  induction pieces generalizing s with
  | nil => exact .nil
  | cons piece rest ih =>
    obtain ⟨hup, hkey, hmode⟩ := continues_decrypt hb h piece
    rcases decrypt_goes_on_or_refuses hb h hc piece with ⟨hn, hopen⟩ | ⟨⟨cause, hm, hr⟩, hclosed⟩
    · have hlater := ih hup hopen
      rw [hkey, hmode] at hlater
      simp only [decryptAll, List.map_cons, hn]
      exact .opens hlater
    · simp only [decryptAll, List.map_cons, hr, decryptAll_of_closed hclosed, List.map_replicate]
      exact .refuses _ hm

/-- A piece that is not too long is opened as it is without the checks. -/
theorem decrypt_eq (hb : maxPayload ≤ b.longestText) (h : Upheld b s) {piece : Bytes}
    (hp : s.isDatagram = true → s.key.suite.authenticates = true →
      piece.length ≤ b.longestText) : decrypt b s piece = reporting (s.update piece) := by
  match s, h with
  | .stream o, h => exact decrypt_stream_eq hb h piece
  | .datagram k true, _ => rfl
  | .datagram k false, h =>
    have ho := openDatagram_eq h (hp rfl)
    simp only [decrypt, ho, Decryptor.update]
    cases Datagram.unlock k piece <;> rfl

theorem decryptAll_eq (hb : maxPayload ≤ b.longestText) (h : Upheld b s) {pieces : List Bytes}
    (hp : s.isDatagram = true → s.key.suite.authenticates = true →
      ∀ piece ∈ pieces, piece.length ≤ b.longestText) :
    decryptAll b s pieces =
      ((s.feed pieces).1.map fun answer => (answer.1, reported answer.2), (s.feed pieces).2) := by
  induction pieces generalizing s with
  | nil => rfl
  | cons piece rest ih =>
    obtain ⟨hup, hkey, hmode⟩ := continues_decrypt hb h piece
    have hstep := decrypt_eq hb h fun hd ha => hp hd ha piece List.mem_cons_self
    have hlater := ih hup fun hd ha p hm =>
      hp (hmode ▸ hd) (hkey ▸ ha) p (List.mem_cons_of_mem _ hm)
    rw [hstep] at hlater
    simp only [decryptAll, hstep, hlater]
    rfl

end Runs

end Checked

/-- **Only refusals are ever reached.** Whatever the suite and the secret, the session that seals does
what it does without any checks, and none of them finds anything. The session that opens is closed
by nothing but a tag that does not fit or a datagram that is too short, as its suite has them, and
says from then on that it is closed; up to a length that no cipher takes any more, it also does what
it does without the checks. -/
theorem SharedKey.only_refusals_are_reached {b : Build} (hb : maxPayload ≤ b.longestText)
    {suite : Suite} (ho : b.offers suite = true) (secret : String) (datagrams : Bool) (e : Entropy)
    {texts : List Bytes}
    (ht : datagrams = true → suite.authenticates = true → ∀ t ∈ texts, t.length ≤ b.longestText)
    (pieces : List Bytes) :
    let p := (ofSecret suite secret).pair datagrams
    Checked.encryptAll b p.encryptor e texts = .ok (p.encryptor.feed e texts) ∧
      Checked.ClosedOnlyBy (suite.refusals datagrams)
        ((Checked.decryptAll b p.decryptor pieces).1.map (·.2)) ∧
      ((datagrams = true → suite.authenticates = true →
          ∀ piece ∈ pieces, piece.length ≤ b.longestText) →
        Checked.decryptAll b p.decryptor pieces =
          ((p.decryptor.feed pieces).1.map fun answer => (answer.1, Checked.reported answer.2),
            (p.decryptor.feed pieces).2)) := by
  have hfits := fits_ofSecret ho secret
  cases datagrams with
  | false =>
    have hup : Checked.Upheld b (.stream { key := ofSecret suite secret }) :=
      Checked.sound_fresh hfits
    exact ⟨Checked.encryptAll_eq (s := .stream { key := ofSecret suite secret }) hb hfits e
        fun _ _ => nofun,
      Checked.closedOnlyBy_decryptAll hb hup rfl pieces, fun _ => Checked.decryptAll_eq hb hup nofun⟩
  | true =>
    have hup : Checked.Upheld b (.datagram (ofSecret suite secret) false) := hfits
    exact ⟨Checked.encryptAll_eq (s := .datagram (ofSecret suite secret)) hb hfits e
        fun t hm _ ha => ht rfl ha t hm,
      Checked.closedOnlyBy_decryptAll hb hup rfl pieces,
      fun hp => Checked.decryptAll_eq hb hup fun _ => hp rfl⟩

theorem SharedKey.only_refusals_are_reached_without_secret :
    let b : Build := ⟨2 ^ 36, true⟩
    let p := (ofSecret .aes128Gcm "").pair true
    maxPayload ≤ b.longestText ∧ b.offers .aes128Gcm = true ∧
      (∀ t ∈ [[1, 2, 3], ([] : Bytes)], t.length ≤ b.longestText) ∧
      Checked.encryptAll b p.encryptor {} [[1, 2, 3], []] =
        .ok (p.encryptor.feed {} [[1, 2, 3], []]) ∧
      Checked.ClosedOnlyBy ["datagram too short", "authentication tag mismatch"]
        ((Checked.decryptAll b p.decryptor [[], [0]]).1.map (·.2)) := by
  intro b p
  have hb : maxPayload ≤ b.longestText := by decide
  have ho : b.offers .aes128Gcm = true := rfl
  have ht : ∀ t ∈ [[1, 2, 3], ([] : Bytes)], t.length ≤ b.longestText := by decide
  obtain ⟨hseal, hopen, -⟩ :=
    only_refusals_are_reached hb ho "" true {} (fun _ _ => ht) [[], [0]]
  exact ⟨hb, ho, ht, hseal, hopen⟩

end SocksChain.Cipher
