import SocksChain.Cipher.Session

/-!
Opening a stream piece by piece comes to the same as opening it at once: the same text, and the same
failure if there is one. So where a stream is cut never matters, and what is read of the front of a
stream is the front of what is read of all of it.
-/

namespace SocksChain.Cipher

/-- The length of what is opened next. -/
def lockedLength (expected : Option Nat) : Nat := expected.getD 2 + Crypto.tagLength

section Steps

variable {c : Crypto.Aead} {uses : Nat} {locked rest : Bytes}

theorem openFrames_of_lt {expected : Option Nat} {held : Bytes}
    (h : held.length < lockedLength expected) :
    openFrames c uses expected held = ⟨[], none, uses, expected, held⟩ := by
  unfold openFrames
  refine dif_pos ?_
  rw [List.length_take]
  unfold lockedLength at h
  omega

theorem openFrames_of_refused {expected : Option Nat} (hl : locked.length = lockedLength expected)
    (hu : c.unlock? (nonce uses) locked = none) :
    openFrames c uses expected (locked ++ rest) =
      ⟨[], some .tagMismatch, uses, expected, locked ++ rest⟩ := by
  have ht : (locked ++ rest).take (expected.getD 2 + Crypto.tagLength) = locked :=
    List.take_left' hl
  rw [openFrames.eq_def, dif_neg (by rw [ht, hl]; exact Nat.lt_irrefl _)]
  simp only [ht, hu]

/-- The payload length that a header announces. -/
def announced (header : Bytes) : Nat := Bytes.ofBigEndian header % (maxPayload + 1)

theorem openFrames_header {header : Bytes} (hl : locked.length = lockedLength none)
    (hu : c.unlock? (nonce uses) locked = some header) :
    openFrames c uses none (locked ++ rest) =
      openFrames c (uses + 1) (some (announced header)) rest := by
  have ht : (locked ++ rest).take ((none : Option Nat).getD 2 + Crypto.tagLength) = locked :=
    List.take_left' hl
  have hd : (locked ++ rest).drop ((none : Option Nat).getD 2 + Crypto.tagLength) = rest :=
    List.drop_left' hl
  rw [openFrames.eq_def, dif_neg (by rw [ht, hl]; exact Nat.lt_irrefl _)]
  simp only [ht, hd, hu]
  rfl

theorem openFrames_payload {n : Nat} {payload : Bytes} (hl : locked.length = lockedLength (some n))
    (hu : c.unlock? (nonce uses) locked = some payload) :
    openFrames c uses (some n) (locked ++ rest) =
      { openFrames c (uses + 1) none rest with
        text := payload ++ (openFrames c (uses + 1) none rest).text } := by
  have ht : (locked ++ rest).take ((some n).getD 2 + Crypto.tagLength) = locked :=
    List.take_left' hl
  have hd : (locked ++ rest).drop ((some n).getD 2 + Crypto.tagLength) = rest :=
    List.drop_left' hl
  rw [openFrames.eq_def, dif_neg (by rw [ht, hl]; exact Nat.lt_irrefl _)]
  simp only [ht, hd, hu]

end Steps

/-- What is held is too short, or it is refused, or it begins with a header or a payload. -/
theorem openFrames_induction (c : Crypto.Aead) {P : Nat → Option Nat → Bytes → Prop}
    (short : ∀ uses expected held, held.length < lockedLength expected → P uses expected held)
    (refused : ∀ uses expected locked rest, locked.length = lockedLength expected →
      c.unlock? (nonce uses) locked = none → P uses expected (locked ++ rest))
    (header : ∀ uses locked header rest, locked.length = lockedLength none →
      c.unlock? (nonce uses) locked = some header →
      P (uses + 1) (some (announced header)) rest → P uses none (locked ++ rest))
    (payload : ∀ uses n locked payload rest, locked.length = lockedLength (some n) →
      c.unlock? (nonce uses) locked = some payload → P (uses + 1) none rest →
      P uses (some n) (locked ++ rest))
    (uses : Nat) (expected : Option Nat) (held : Bytes) : P uses expected held := by
  induction hn : held.length using Nat.strongRecOn generalizing uses expected held with
  | ind n ih =>
    subst hn
    by_cases hlt : held.length < lockedLength expected
    · exact short uses expected held hlt
    · have hl : (held.take (lockedLength expected)).length = lockedLength expected := by
        rw [List.length_take]
        omega
      have hd : (held.drop (lockedLength expected)).length < held.length := by
        rw [List.length_drop]
        unfold lockedLength Crypto.tagLength at hlt ⊢
        omega
      rw [← List.take_append_drop (lockedLength expected) held]
      cases hu : c.unlock? (nonce uses) (held.take (lockedLength expected)) with
      | none => exact refused _ _ _ _ hl hu
      | some b =>
        cases expected with
        | none => exact header _ _ _ _ hl hu (ih _ hd _ _ _ rfl)
        | some m => exact payload _ _ _ _ _ hl hu (ih _ hd _ _ _ rfl)

/-- What is opened in two pieces, as long as the first one does not fail. -/
theorem openFrames_append (c : Crypto.Aead) (uses : Nat) (expected : Option Nat)
    (held more : Bytes) : let r := openFrames c uses expected held
    r.failure = none → openFrames c uses expected (held ++ more) =
      { openFrames c r.uses r.expected (r.held ++ more) with
        text := r.text ++ (openFrames c r.uses r.expected (r.held ++ more)).text } := by
  induction uses, expected, held using openFrames_induction c with
  | short uses expected held hlt =>
    rw [openFrames_of_lt hlt]
    exact fun _ => rfl
  | refused uses expected locked rest hl hu =>
    rw [openFrames_of_refused hl hu]
    exact nofun
  | header uses locked header rest hl hu ih =>
    rw [List.append_assoc, openFrames_header hl hu, openFrames_header hl hu]
    exact ih
  | payload uses n locked payload rest hl hu ih =>
    rw [List.append_assoc, openFrames_payload hl hu, openFrames_payload hl hu]
    intro r hf
    rw [ih hf, List.append_assoc]

/-- What comes after a frame that does not open changes nothing. -/
theorem openFrames_append_of_failure (c : Crypto.Aead) (uses : Nat) (expected : Option Nat)
    (held more : Bytes) {f : CipherCause} : let r := openFrames c uses expected held
    let r' := openFrames c uses expected (held ++ more)
    r.failure = some f → r'.text = r.text ∧ r'.failure = some f := by
  induction uses, expected, held using openFrames_induction c with
  | short uses expected held hlt =>
    rw [openFrames_of_lt hlt]
    exact nofun
  | refused uses expected locked rest hl hu =>
    rw [List.append_assoc, openFrames_of_refused hl hu, openFrames_of_refused hl hu]
    exact fun hf => ⟨rfl, hf⟩
  | header uses locked header rest hl hu ih =>
    rw [List.append_assoc, openFrames_header hl hu, openFrames_header hl hu]
    exact ih
  | payload uses n locked payload rest hl hu ih =>
    rw [List.append_assoc, openFrames_payload hl hu, openFrames_payload hl hu]
    intro r r' hf
    obtain ⟨ht, hf'⟩ := ih hf
    exact ⟨congrArg (payload ++ ·) ht, hf'⟩

namespace Opener

theorem unlock_append {s : Opener} {k : Keyed} {held : Bytes} (hs : s.failed = false)
    (h : (s.unlock k held).2.1 = none) (more : Bytes) :
    let s' := (s.unlock k held).2.2
    s.unlock k (held ++ more) = ((s.unlock k held).1 ++ (s'.update more).1, (s'.update more).2) := by
  cases k with
  | frames c uses =>
    have hf : (openFrames c uses s.expected held).failure = none := h
    simp only [unlock, update, hf, openFrames_append c uses s.expected held more hf,
      Option.isSome_none, Bool.false_eq_true, if_false]
  | keystream r =>
    simp only [unlock, update, hs, Crypto.Rc4.apply_append, List.nil_append, Bool.false_eq_true,
      if_false]

theorem unlock_append_of_failure {s : Opener} {k : Keyed} {held : Bytes} {f : CipherCause}
    (h : (s.unlock k held).2.1 = some f) (more : Bytes) :
    (s.unlock k (held ++ more)).1 = (s.unlock k held).1 ∧
      (s.unlock k (held ++ more)).2.1 = some f := by
  cases k with
  | frames c uses => exact openFrames_append_of_failure c uses s.expected held more h
  | keystream r => cases h

theorem failed_unlock {s : Opener} {k : Keyed} {held : Bytes} {f : CipherCause}
    (h : (s.unlock k held).2.1 = some f) : (s.unlock k held).2.2.failed = true := by
  cases k with
  | frames c uses =>
    have hf : (openFrames c uses s.expected held).failure = some f := h
    simp only [unlock, hf, Option.isSome_some]
  | keystream r => cases h

theorem unlock_of_held (s : Opener) (k : Keyed) (b held : Bytes) :
    { s with held := held }.unlock k b = s.unlock k b := by
  cases k <;> rfl

theorem update_of_failed {s : Opener} (h : s.failed = true) (a : Bytes) :
    s.update a = ([], some .sessionClosed, s) := by
  rw [update, if_pos h]

/-- A session still waits for the rest of its salt, or it unlocks what it has. -/
theorem update_cases {s : Opener} (hs : s.failed = false) (a : Bytes) :
    (s.update a = ([], none, { s with held := s.held ++ a }) ∧
      ∀ more, s.update (a ++ more) = { s with held := s.held ++ a }.update more) ∨
    ∃ k held, s.update a = s.unlock k held ∧
      ∀ more, s.update (a ++ more) = s.unlock k (held ++ more) := by
  cases hk : s.keyed with
  | some k =>
    refine .inr ⟨k, s.held ++ a, ?_, fun more => ?_⟩
    · simp only [update, hs, hk, Bool.false_eq_true, if_false]
    · simp only [update, hs, hk, Bool.false_eq_true, if_false, List.append_assoc]
  | none =>
    by_cases hl : (s.held ++ a).length < s.key.suite.saltLength
    · refine .inl ⟨?_, fun more => ?_⟩
      · simp only [update, hs, hk, Bool.false_eq_true, if_false,
          List.take_of_length_le (Nat.le_of_lt hl), hl, if_true]
      · have hu := fun k b => unlock_of_held s k b (s.held ++ a)
        simp only [hs, hk] at hu
        simp only [update, hs, hk, Bool.false_eq_true, if_false, List.append_assoc, hu]
    · have hle := Nat.not_lt.1 hl
      have ht : ¬ ((s.held ++ a).take s.key.suite.saltLength).length < s.key.suite.saltLength := by
        rw [List.length_take_of_le hle]
        exact Nat.lt_irrefl _
      refine .inr ⟨s.key.keyed ((s.held ++ a).take s.key.suite.saltLength),
        (s.held ++ a).drop s.key.suite.saltLength, ?_, fun more => ?_⟩
      · simp only [update, hs, hk, Bool.false_eq_true, if_false, ht]
      · simp only [update, hs, hk, Bool.false_eq_true, if_false, ← List.append_assoc,
          List.take_append_of_le_length hle, List.drop_append_of_le_length hle, ht]

/-- A piece that does not fail leaves the session where it has to be for the rest. -/
theorem update_append {s : Opener} {a : Bytes} (h : (s.update a).2.1 = none) (more : Bytes) :
    let s' := (s.update a).2.2
    s.update (a ++ more) = ((s.update a).1 ++ (s'.update more).1, (s'.update more).2) := by
  cases hs : s.failed with
  | true =>
    rw [update_of_failed hs] at h
    cases h
  | false =>
    obtain ⟨ha, hm⟩ | ⟨k, held, ha, hm⟩ := update_cases hs a
    · rw [hm, ha]
      rfl
    · rw [ha] at h ⊢
      rw [hm]
      exact unlock_append hs h more

/-- What comes after a piece that fails opens nothing more. -/
theorem update_append_of_failure {s : Opener} {a : Bytes} {f : CipherCause}
    (h : (s.update a).2.1 = some f) (more : Bytes) :
    (s.update (a ++ more)).1 = (s.update a).1 ∧ (s.update (a ++ more)).2.1 = some f := by
  cases hs : s.failed with
  | true =>
    rw [update_of_failed hs] at h ⊢
    rw [update_of_failed hs]
    exact ⟨rfl, h⟩
  | false =>
    obtain ⟨ha, -⟩ | ⟨k, held, ha, hm⟩ := update_cases hs a
    · rw [ha] at h
      cases h
    · rw [ha] at h ⊢
      rw [hm]
      exact unlock_append_of_failure h more

theorem failed_update {s : Opener} {a : Bytes} {f : CipherCause}
    (h : (s.update a).2.1 = some f) : (s.update a).2.2.failed = true := by
  cases hs : s.failed with
  | true =>
    rw [update_of_failed hs]
    exact hs
  | false =>
    obtain ⟨ha, -⟩ | ⟨k, held, ha, -⟩ := update_cases hs a
    · rw [ha] at h
      cases h
    · rw [ha] at h ⊢
      exact failed_unlock h

/-- A session that has taken a piece has opened all of it that can be opened. -/
theorem update_nil_of_update {s : Opener} {a : Bytes} (h : (s.update a).2.1 = none) :
    let s' := (s.update a).2.2
    s'.update [] = ([], none, s') := by
  intro s'
  have hn : s.update a = ((s.update a).1 ++ (s'.update []).1, (s'.update []).2) := by
    simpa only [List.append_nil] using update_append h []
  obtain ⟨ht, hr⟩ := Prod.ext_iff.1 hn
  have hr : (s'.update []).2 = (none, s') := by
    rw [← hr, ← h]
  exact Prod.ext (List.self_eq_append_right.1 ht) hr

theorem update_short {key : SharedKey} {held : Bytes} (h : held.length < key.suite.saltLength) :
    ({ key } : Opener).update held = ([], none, { key, held }) := by
  simp only [update, Bool.false_eq_true, if_false, List.nil_append,
    List.take_of_length_le (Nat.le_of_lt h), h, if_true]

theorem update_nil (key : SharedKey) : ({ key } : Opener).update [] = ([], none, { key }) := by
  refine update_short ?_
  cases key.suite <;> decide

theorem update_salt {key : SharedKey} {salt : Bytes} (hs : salt.length = key.suite.saltLength)
    (rest : Bytes) :
    ({ key } : Opener).update (salt ++ rest) = ({ key } : Opener).unlock (key.keyed salt) rest := by
  simp only [update, Bool.false_eq_true, if_false, List.nil_append, List.take_left' hs,
    List.drop_left' hs, hs, Nat.lt_irrefl]

end Opener

namespace Decryptor

/-- A session that refuses whatever comes. -/
def isClosed : Decryptor → Bool
  | stream s => s.failed
  | datagram _ failed => failed

/-- The answers to pieces that come one after another, and the session after them. -/
def feed (s : Decryptor) : List Bytes → List (Bytes × Option CipherCause) × Decryptor
  | [] => ([], s)
  | piece :: rest =>
    let (text, failure, s) := s.update piece
    let (answers, s) := s.feed rest
    ((text, failure) :: answers, s)

theorem update_of_closed {s : Decryptor} (h : s.isClosed = true) (piece : Bytes) :
    s.update piece = ([], some .sessionClosed, s) := by
  cases s with
  | stream o => simp only [update, Opener.update_of_failed h]
  | datagram k failed =>
    cases failed
    · cases h
    · rfl

theorem closed_update {s : Decryptor} {piece : Bytes} {f : CipherCause}
    (h : (s.update piece).2.1 = some f) : (s.update piece).2.2.isClosed = true := by
  cases s with
  | stream o => exact Opener.failed_update h
  | datagram k failed =>
    cases failed with
    | true => rfl
    | false =>
      cases hu : Datagram.unlock k piece with
      | ok text =>
        simp only [update, hu] at h
        cases h
      | error cause => simp only [update, hu, isClosed]

theorem feed_eq_of_closed {s : Decryptor} (h : s.isClosed = true) (pieces : List Bytes) :
    s.feed pieces = (List.replicate pieces.length ([], some .sessionClosed), s) := by
  induction pieces with
  | nil => rfl
  | cons piece rest ih =>
    simp only [feed, update_of_closed h, ih]
    rfl

theorem feed_of_closed {s : Decryptor} (h : s.isClosed = true) (pieces : List Bytes) :
    ∀ a ∈ (s.feed pieces).1, a = ([], some .sessionClosed) := by
  rw [feed_eq_of_closed h]
  exact fun a => List.eq_of_mem_replicate

/-- After a failure nothing is opened any more. -/
theorem feed_pairwise (s : Decryptor) (pieces : List Bytes) :
    (s.feed pieces).1.Pairwise fun a b => a.2.isSome → b = ([], some .sessionClosed) := by
  induction pieces generalizing s with
  | nil => exact .nil
  | cons piece rest ih =>
    refine .cons (fun b hb hf => ?_) (ih _)
    obtain ⟨f, hf⟩ := Option.isSome_iff_exists.1 hf
    exact feed_of_closed (closed_update hf) rest b hb

/-- The pieces of a stream open to what the stream opens to. -/
theorem text_feed_stream {o : Opener} (ho : o.update [] = ([], none, o)) (pieces : List Bytes) :
    ((stream o).feed pieces).1.flatMap (·.1) = (o.update pieces.flatten).1 := by
  induction pieces generalizing o with
  | nil => exact (congrArg Prod.fst ho).symm
  | cons piece rest ih =>
    rw [List.flatten_cons]
    cases hf : (o.update piece).2.1 with
    | none =>
      rw [Opener.update_append hf]
      exact congrArg ((o.update piece).1 ++ ·) (ih (Opener.update_nil_of_update hf))
    | some f =>
      have hc : (stream (o.update piece).2.2).isClosed = true := Opener.failed_update hf
      have hr : ((stream (o.update piece).2.2).feed rest).1.flatMap (·.1) = [] := by
        rw [List.flatMap_eq_nil_iff]
        exact fun a ha => congrArg Prod.fst (feed_of_closed hc rest a ha)
      rw [(Opener.update_append_of_failure hf _).1]
      exact (congrArg ((o.update piece).1 ++ ·) hr).trans (List.append_nil _)

/-- When all of a stream opens, so does every piece of it. -/
theorem feed_stream {o : Opener} (ho : o.update [] = ([], none, o)) {pieces : List Bytes}
    (h : (o.update pieces.flatten).2.1 = none) :
    (∀ a ∈ ((stream o).feed pieces).1, a.2 = none) ∧
      ((stream o).feed pieces).2 = stream (o.update pieces.flatten).2.2 := by
  induction pieces generalizing o with
  | nil =>
    refine ⟨nofun, ?_⟩
    rw [List.flatten_nil, ho]
    rfl
  | cons piece rest ih =>
    rw [List.flatten_cons] at h ⊢
    cases hf : (o.update piece).2.1 with
    | none =>
      rw [Opener.update_append hf] at h ⊢
      obtain ⟨ha, hs⟩ := ih (Opener.update_nil_of_update hf) h
      exact ⟨List.forall_mem_cons.2 ⟨hf, ha⟩, hs⟩
    | some f =>
      rw [(Opener.update_append_of_failure hf _).2] at h
      cases h

/-- A session that was given a stream in pieces is closed exactly if some of it was refused. -/
theorem isClosed_feed_stream {o : Opener} (ho : o.update [] = ([], none, o)) (pieces : List Bytes) :
    ((stream o).feed pieces).2.isClosed = (o.update pieces.flatten).2.1.isSome := by
  induction pieces generalizing o with
  | nil =>
    rw [List.flatten_nil, ho]
    show o.failed = false
    rw [← Bool.not_eq_true]
    intro hf
    rw [Opener.update_of_failed hf] at ho
    cases ho
  | cons piece rest ih =>
    rw [List.flatten_cons]
    cases hf : (o.update piece).2.1 with
    | none =>
      rw [Opener.update_append hf]
      exact ih (Opener.update_nil_of_update hf)
    | some f =>
      have hc : (stream (o.update piece).2.2).isClosed = true := Opener.failed_update hf
      rw [(Opener.update_append_of_failure hf _).2]
      show ((stream (o.update piece).2.2).feed rest).2.isClosed = true
      rw [feed_eq_of_closed hc]
      exact hc

end Decryptor

/-- **Where a stream is cut makes no difference.** Of the same bytes, honest or not, two sessions
open the same text, however the bytes are cut for each; and either both have met a frame that does
not open, or they are the same session, which waits for the same bytes and goes on in the same way.
In both cases they answer alike to whatever comes next. -/
theorem SharedKey.cuts_make_no_difference (key : SharedKey) {pieces pieces' : List Bytes}
    (h : pieces.flatten = pieces'.flatten) :
    let r := (key.pair false).decryptor.feed pieces
    let r' := (key.pair false).decryptor.feed pieces'
    r.1.flatMap (·.1) = r'.1.flatMap (·.1) ∧ r.2.isClosed = r'.2.isClosed ∧
      (r.2.isClosed = false → r.2 = r'.2 ∧ r.2.isPartial = r'.2.isPartial) ∧
      ∀ more, (r.2.feed more).1 = (r'.2.feed more).1 := by
  intro r r'
  have hfresh := Opener.update_nil key
  have htext := Decryptor.text_feed_stream hfresh
  have hclosed := Decryptor.isClosed_feed_stream hfresh
  have heq : r.2.isClosed = r'.2.isClosed := (hclosed pieces).trans (h ▸ (hclosed pieces').symm)
  have hsame : r.2.isClosed = false → r.2 = r'.2 := by
    intro hopen
    have hall : (({ key } : Opener).update pieces.flatten).2.1 = none := by
      rw [← Option.isNone_iff_eq_none, ← Option.isSome_eq_false_iff]
      exact (hclosed pieces).symm.trans hopen
    have hs := (Decryptor.feed_stream hfresh hall).2
    rw [h] at hall hs
    exact hs.trans (Decryptor.feed_stream hfresh hall).2.symm
  refine ⟨(htext pieces).trans (h ▸ (htext pieces').symm), heq,
    fun hopen => ⟨hsame hopen, congrArg Decryptor.isPartial (hsame hopen)⟩, fun more => ?_⟩
  cases hc : r.2.isClosed with
  | false => rw [hsame hc]
  | true => rw [Decryptor.feed_eq_of_closed hc, Decryptor.feed_eq_of_closed (heq ▸ hc)]

/-- A stream that is no frame behind its salt, whole and cut inside the salt. -/
theorem SharedKey.cuts_make_no_difference_in_salt :
    let key := SharedKey.ofSecret .aes128Gcm "secret"
    let stream : Bytes := List.replicate 50 7
    let pieces := [stream]
    let pieces' := [stream.take 10, [], stream.drop 10]
    let r := (key.pair false).decryptor.feed pieces
    let r' := (key.pair false).decryptor.feed pieces'
    pieces.flatten = pieces'.flatten ∧ r.1.flatMap (·.1) = r'.1.flatMap (·.1) ∧
      r.2.isClosed = r'.2.isClosed ∧ (r.2.feed [[1]]).1 = (r'.2.feed [[1]]).1 := by
  intro key stream pieces pieces' r r'
  have h : pieces.flatten = pieces'.flatten := by decide
  obtain ⟨htext, hclosed, -, hmore⟩ := cuts_make_no_difference key h
  exact ⟨h, htext, hclosed, hmore [[1]]⟩

end SocksChain.Cipher
