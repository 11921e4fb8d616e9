import SocksChain.Proofs.Cipher.RoundTrip

/-!
Frames as they lie in a stream. Opening a stream gives the payloads of the longest run of whole
frames at its front, whatever comes behind them. It stops without a failure and with nothing in hand
exactly if nothing does come behind them.
-/

namespace SocksChain.Cipher

/-- A locked header, and a locked payload of the length that the header announces. -/
structure Frame (c : Crypto.Aead) (uses : Nat) (head body header payload : Bytes) : Prop where
  length_head : head.length = lockedLength none
  opens_head : c.unlock? (nonce uses) head = some header
  length_body : body.length = lockedLength (some (announced header))
  opens_body : c.unlock? (nonce (uses + 1)) body = some payload

/-- Whole frames one after another, each with the next two nonces, and their payloads. -/
inductive Frames (c : Crypto.Aead) : Nat → Bytes → List Bytes → Prop
  | done {uses : Nat} : Frames c uses [] []
  | more {uses : Nat} {head body header payload rest : Bytes} {payloads : List Bytes} :
      Frame c uses head body header payload → Frames c (uses + 2) rest payloads →
      Frames c uses (head ++ (body ++ rest)) (payload :: payloads)

def BeginsWithFrame (c : Crypto.Aead) (uses : Nat) (held : Bytes) : Prop :=
  ∃ head body header payload rest, Frame c uses head body header payload ∧
    held = head ++ (body ++ rest)

/-- The longest run of whole frames at the front of `held`. -/
structure LongestRun (c : Crypto.Aead) (uses : Nat) (held run : Bytes) (payloads : List Bytes) :
    Prop where
  front : run <+: held
  frames : Frames c uses run payloads
  longest : ∀ run' payloads', run' <+: held → Frames c uses run' payloads' → run' <+: run

/-- Whether opening has come to its end between two frames, with none refused. -/
def Opened.IsClean (r : Opened) : Prop := r.failure = none ∧ r.expected = none ∧ r.held = []

section Fronts

variable {c : Crypto.Aead} {uses : Nat} {head body header payload rest held : Bytes}

/-- The front of a stream is one frame at most. -/
theorem Frame.eq_of_append {head' body' header' payload' rest' : Bytes}
    (h : Frame c uses head body header payload) (h' : Frame c uses head' body' header' payload')
    (he : head' ++ (body' ++ rest') = head ++ (body ++ rest)) :
    head' = head ∧ body' = body ∧ payload' = payload ∧ rest' = rest := by
  obtain ⟨rfl, hbodies⟩ := List.append_inj he (h'.length_head.trans h.length_head.symm)
  obtain rfl : header' = header := Option.some.inj (h'.opens_head.symm.trans h.opens_head)
  obtain ⟨rfl, rfl⟩ := List.append_inj hbodies (h'.length_body.trans h.length_body.symm)
  obtain rfl : payload' = payload := Option.some.inj (h'.opens_body.symm.trans h.opens_body)
  exact ⟨rfl, rfl, rfl, rfl⟩

theorem Frame.ne_nil (h : Frame c uses head body header payload) (rest : Bytes) :
    head ++ (body ++ rest) ≠ [] := by
  have hpos : 0 < head.length := by rw [h.length_head]; decide
  exact List.append_ne_nil_of_left_ne_nil (List.ne_nil_of_length_pos hpos) _

/-- Frames are cut in one way only. -/
theorem Frames.payloads_eq {run run' : Bytes} {payloads payloads' : List Bytes}
    (h : Frames c uses run payloads) (h' : Frames c uses run' payloads') (he : run = run') :
    payloads = payloads' := by
  induction h generalizing run' payloads' with
  | done =>
    cases h' with
    | done => rfl
    | more hframe _ => exact absurd he.symm (hframe.ne_nil _)
  | more hframe _ ih =>
    cases h' with
    | done => exact absurd he (hframe.ne_nil _)
    | more hframe' hrest' =>
      obtain ⟨-, -, rfl, hrest⟩ := hframe.eq_of_append hframe' he.symm
      rw [ih hrest' hrest.symm]

theorem LongestRun.payloads_eq {run run' : Bytes} {payloads payloads' : List Bytes}
    (h : LongestRun c uses held run payloads) (h' : LongestRun c uses held run' payloads') :
    payloads = payloads' := by
  refine h.frames.payloads_eq h'.frames ?_
  have hle := h'.longest run payloads h.front h.frames
  have hge := h.longest run' payloads' h'.front h'.frames
  exact hle.eq_of_length_le hge.length_le

theorem openFrames_frame (h : Frame c uses head body header payload) (rest : Bytes) :
    openFrames c uses none (head ++ (body ++ rest)) =
      { openFrames c (uses + 2) none rest with
        text := payload ++ (openFrames c (uses + 2) none rest).text } := by
  rw [openFrames_header h.length_head h.opens_head, openFrames_payload h.length_body h.opens_body]

/-- Where no frame is in front, nothing is opened, and opening stops for what there is. -/
theorem openFrames_of_no_frame (h : ¬ BeginsWithFrame c uses held) :
    (openFrames c uses none held).text = [] ∧
      ((openFrames c uses none held).IsClean ↔ held = []) := by
  by_cases hh : held.length < lockedLength none
  · rw [openFrames_of_lt hh]
    exact ⟨rfl, fun hc => hc.2.2, fun he => ⟨rfl, rfl, he⟩⟩
  have hne : held ≠ [] := by
    rintro rfl
    exact hh (by decide)
  obtain ⟨head, rest, rfl, hl⟩ : ∃ head rest, held = head ++ rest ∧
      head.length = lockedLength none :=
    ⟨_, _, (List.take_append_drop (lockedLength none) held).symm,
      List.length_take_of_le (Nat.not_lt.mp hh)⟩
  cases hu : c.unlock? (nonce uses) head with
  | none =>
    rw [openFrames_of_refused hl hu]
    exact ⟨rfl, iff_of_false (fun hc => nomatch hc.1) hne⟩
  | some header =>
    rw [openFrames_header hl hu]
    by_cases hb : rest.length < lockedLength (some (announced header))
    · rw [openFrames_of_lt hb]
      exact ⟨rfl, iff_of_false (fun hc => nomatch hc.2.1) hne⟩
    obtain ⟨body, rest, rfl, hl'⟩ : ∃ body rest', rest = body ++ rest' ∧
        body.length = lockedLength (some (announced header)) :=
      ⟨_, _, (List.take_append_drop (lockedLength (some (announced header))) rest).symm,
        List.length_take_of_le (Nat.not_lt.mp hb)⟩
    cases hu' : c.unlock? (nonce (uses + 1)) body with
    | none =>
      rw [openFrames_of_refused hl' hu']
      exact ⟨rfl, iff_of_false (fun hc => nomatch hc.1) hne⟩
    | some payload =>
      exact absurd ⟨head, body, header, payload, rest, ⟨hl, hu, hl', hu'⟩, rfl⟩ h

theorem LongestRun.nil (h : ¬ BeginsWithFrame c uses held) : LongestRun c uses held [] [] := by
  refine ⟨List.nil_prefix, .done, fun run payloads hp hf => ?_⟩
  cases hf with
  | done => exact List.nil_prefix
  | more h' hf' =>
    obtain ⟨later, hl⟩ := hp
    rw [List.append_assoc, List.append_assoc] at hl
    exact absurd ⟨_, _, _, _, _, h', hl.symm⟩ h

theorem LongestRun.more {run : Bytes} {payloads : List Bytes}
    (h : Frame c uses head body header payload)
    (hr : LongestRun c (uses + 2) rest run payloads) :
    LongestRun c uses (head ++ (body ++ rest)) (head ++ (body ++ run)) (payload :: payloads) := by
  have hbehind : ∀ {a b : Bytes}, a <+: b → head ++ (body ++ a) <+: head ++ (body ++ b) := by
    intro a b hab
    rwa [List.prefix_append_right_inj, List.prefix_append_right_inj]
  refine ⟨hbehind hr.front, .more h hr.frames, fun run' payloads' hp hf => ?_⟩
  cases hf with
  | done => exact List.nil_prefix
  | more h' hf' =>
    obtain ⟨later, hl⟩ := hp
    rw [List.append_assoc, List.append_assoc] at hl
    obtain ⟨rfl, rfl, -, hrest⟩ := h.eq_of_append h' hl
    exact hbehind (hr.longest _ _ ⟨later, hrest⟩ hf')

end Fronts

/-- What is opened of a stream are the payloads of the longest run of whole frames at its front. -/
theorem exists_longestRun (c : Crypto.Aead) (uses : Nat) (held : Bytes) : ∃ run payloads,
    LongestRun c uses held run payloads ∧
      (openFrames c uses none held).text = payloads.flatten ∧
      ((openFrames c uses none held).IsClean ↔ run = held) := by
  -- Frame by frame, on the length: opening itself also stops between a header and its payload.
  induction hn : held.length using Nat.strongRecOn generalizing uses held with
  | ind n ih =>
    subst hn
    by_cases h : BeginsWithFrame c uses held
    · obtain ⟨head, body, header, payload, rest, hframe, rfl⟩ := h
      have hlt : rest.length < (head ++ (body ++ rest)).length := by
        have hhead : head.length = 18 := hframe.length_head
        rw [List.length_append, List.length_append]
        omega
      obtain ⟨run, payloads, hrun, htext, hclean⟩ := ih _ hlt (uses + 2) rest rfl
      rw [openFrames_frame hframe]
      refine ⟨_, _, hrun.more hframe, congrArg (payload ++ ·) htext, ?_⟩
      rw [List.append_cancel_left_eq, List.append_cancel_left_eq]
      exact hclean
    · obtain ⟨htext, hclean⟩ := openFrames_of_no_frame h
      exact ⟨[], [], .nil h, htext, hclean.trans eq_comm⟩

/-- Opening comes to a clean end exactly of whole frames. -/
theorem isClean_openFrames_iff (c : Crypto.Aead) (uses : Nat) (held : Bytes) :
    (openFrames c uses none held).IsClean ↔ ∃ payloads, Frames c uses held payloads := by
  obtain ⟨run, payloads, hrun, -, hclean⟩ := exists_longestRun c uses held
  rw [hclean]
  constructor
  · rintro rfl
    exact ⟨payloads, hrun.frames⟩
  · rintro ⟨payloads', hf⟩
    exact hrun.front.eq_of_length_le (hrun.longest held payloads' (List.prefix_refl _) hf).length_le

/-- What was refused is still in hand. -/
theorem held_ne_nil_of_failure (c : Crypto.Aead) (uses : Nat) (expected : Option Nat)
    (held : Bytes) {f : CipherCause} (h : (openFrames c uses expected held).failure = some f) :
    (openFrames c uses expected held).held ≠ [] := by
  induction uses, expected, held using openFrames_induction c with
  | short uses expected held hlt =>
    rw [openFrames_of_lt hlt] at h
    cases h
  | refused uses expected locked rest hl hu =>
    rw [openFrames_of_refused hl hu]
    show locked ++ rest ≠ []
    have hpos : 0 < lockedLength expected := Nat.add_pos_right _ (by decide)
    exact List.append_ne_nil_of_left_ne_nil (List.ne_nil_of_length_pos (hl ▸ hpos)) rest
  | header uses locked header rest hl hu ih =>
    rw [openFrames_header hl hu] at h ⊢
    exact ih h
  | payload uses n locked payload rest hl hu ih =>
    rw [openFrames_payload hl hu] at h ⊢
    exact ih h

namespace Keyed

/-- The text behind a salt: the payloads of the longest run of whole frames, or what the keystream
makes of all of it. -/
def Reveals (behind text : Bytes) : Keyed → Prop
  | frames c uses => ∃ run payloads, LongestRun c uses behind run payloads ∧ text = payloads.flatten
  | keystream r => text = (r.apply behind).1

theorem Reveals.unique {k : Keyed} {behind text text' : Bytes} (h : k.Reveals behind text)
    (h' : k.Reveals behind text') : text = text' := by
  cases k with
  | frames c uses =>
    obtain ⟨run, payloads, hrun, rfl⟩ := h
    obtain ⟨run', payloads', hrun', rfl⟩ := h'
    rw [hrun.payloads_eq hrun']
  | keystream r => exact h.trans h'.symm

/-- Whether what is behind a salt has nothing missing. -/
def IsWhole (behind : Bytes) : Keyed → Prop
  | frames c uses => ∃ payloads, Frames c uses behind payloads
  | keystream _ => True

end Keyed

namespace SharedKey

/-- The text that a reader may be given of a sealed stream. -/
def Reveals (key : SharedKey) (sealed text : Bytes) : Prop :=
  (key.keyed (sealed.take key.suite.saltLength)).Reveals (sealed.drop key.suite.saltLength) text

/-- A stream that has not begun, or a salt with nothing missing behind it. -/
def IsWhole (key : SharedKey) (sealed : Bytes) : Prop :=
  sealed = [] ∨ key.suite.saltLength ≤ sealed.length ∧
    (key.keyed (sealed.take key.suite.saltLength)).IsWhole (sealed.drop key.suite.saltLength)

end SharedKey

namespace Opener

/-- Nothing has failed, and nothing is waited for. -/
def EndsClean (r : Bytes × Option CipherCause × Opener) : Prop :=
  r.2.1 = none ∧ r.2.2.isPartial = false

theorem isPartial_eq_false {s : Opener} : s.isPartial = false ↔ s.expected = none ∧ s.held = [] := by
  rw [isPartial, Bool.or_eq_false_iff, Bool.not_eq_false', List.isEmpty_iff,
    Option.isSome_eq_false_iff, Option.isNone_iff_eq_none, and_comm]

theorem reveals_unlock (key : SharedKey) (k : Keyed) (behind : Bytes) :
    k.Reveals behind (({ key } : Opener).unlock k behind).1 ∧
      (EndsClean (({ key } : Opener).unlock k behind) ↔ k.IsWhole behind) := by
  cases k with
  | frames c uses =>
    obtain ⟨run, payloads, hrun, htext, -⟩ := exists_longestRun c uses behind
    refine ⟨⟨run, payloads, hrun, htext⟩, ?_⟩
    show _ ↔ ∃ payloads, Frames c uses behind payloads
    rw [← isClean_openFrames_iff, EndsClean, isPartial_eq_false]
    rfl
  | keystream r => exact ⟨rfl, iff_of_true ⟨rfl, rfl⟩ trivial⟩

/-- A stream that ends inside its salt reveals nothing. -/
theorem reveals_of_short {key : SharedKey} {sealed : Bytes}
    (h : sealed.length < key.suite.saltLength) : key.Reveals sealed [] := by
  rw [SharedKey.Reveals, List.drop_of_length_le (Nat.le_of_lt h)]
  generalize key.keyed (sealed.take key.suite.saltLength) = k
  obtain ⟨hreveals, -⟩ := reveals_unlock key k []
  have hlen := length_unlock_le { key } k []
  have hnil : (({ key } : Opener).unlock k []).1 = [] := by
    rw [← List.length_eq_zero_iff]
    exact Nat.eq_zero_of_le_zero (Nat.le_trans (Nat.le_add_right _ _) hlen)
  rwa [hnil] at hreveals

/-- A fresh session opens what a stream reveals, and comes to a clean end exactly of a whole one. -/
theorem reveals_update (key : SharedKey) (sealed : Bytes) :
    key.Reveals sealed (({ key } : Opener).update sealed).1 ∧
      (EndsClean (({ key } : Opener).update sealed) ↔ key.IsWhole sealed) := by
  have hpos := key.suite.saltLength_pos
  by_cases hlt : sealed.length < key.suite.saltLength
  · rw [update_short hlt, EndsClean, isPartial_eq_false]
    refine ⟨reveals_of_short hlt, fun h => .inl h.2.2, ?_⟩
    rintro (rfl | ⟨hle, -⟩)
    · exact ⟨rfl, rfl, rfl⟩
    · exact absurd hlt (Nat.not_lt.mpr hle)
  · have hle := Nat.not_lt.mp hlt
    have hup := update_salt (List.length_take_of_le hle) (sealed.drop key.suite.saltLength)
    rw [List.take_append_drop] at hup
    obtain ⟨hreveals, hclean⟩ := reveals_unlock key (key.keyed (sealed.take key.suite.saltLength))
      (sealed.drop key.suite.saltLength)
    rw [hup]
    refine ⟨hreveals, fun h => .inr ⟨hle, hclean.mp h⟩, ?_⟩
    rintro (rfl | ⟨-, h⟩)
    · exact absurd hpos hlt
    · exact hclean.mpr h

/-- A session that has refused a frame holds on to it. -/
theorem isPartial_of_failure {s : Opener} {a : Bytes} {f : CipherCause} (hs : s.failed = false)
    (h : (s.update a).2.1 = some f) : (s.update a).2.2.isPartial = true := by
  obtain ⟨ha, -⟩ | ⟨k, held, ha, -⟩ := update_cases hs a
  · rw [ha] at h
    cases h
  · rw [ha] at h ⊢
    cases k with
    | frames c uses =>
      rw [← Bool.not_eq_false, isPartial_eq_false]
      exact fun hp => held_ne_nil_of_failure c uses s.expected held h hp.2
    | keystream r => cases h

end Opener

end SocksChain.Cipher
