import Mathlib.Data.List.Nodup
import SocksChain.Proofs.Cipher.Integrity

/-!
Which nonces a session uses. Beside each session runs a log of what it uses its cipher for, one
entry for each header or payload that it locks or has opened. What goes out is what the log says was
locked, and what comes out is what the log says has opened. The nonce of an entry is its number in
the log: no nonce comes twice before all of them have, and both ends of a stream use the same ones.
-/

namespace SocksChain

theorem Bytes.littleEndian_mod (n v : Nat) :
    littleEndian n (v % 256 ^ n) = littleEndian n v := by
  induction n generalizing v with
  | zero => rfl
  | succ n ih =>
    have hlow : UInt8.ofNat (v % 256 ^ (n + 1)) = UInt8.ofNat v := by
      rw [← UInt8.toNat_inj, UInt8.toNat_ofNat', UInt8.toNat_ofNat']
      exact Nat.mod_mod_of_dvd v ⟨256 ^ n, Nat.pow_succ' (m := 256)⟩
    have hrest : v % 256 ^ (n + 1) / 256 = v / 256 % 256 ^ n := by
      rw [Nat.pow_succ', Nat.mod_mul_right_div_self]
    rw [littleEndian, littleEndian, hlow, hrest, ih]

namespace Cipher

theorem nonce_eq_mod (uses : Nat) : nonce uses = Bytes.littleEndian 12 (uses % 2 ^ 96) := by
  have hpow : 2 ^ 96 = 256 ^ 12 := by decide
  rw [nonce_eq, hpow, Bytes.littleEndian_mod]

/-- One use of a cipher: `text` was locked as `locked`, or `locked` has opened as `text`. -/
structure Use where
  cipher : Crypto.Aead
  nonce : Bytes
  isPayload : Bool
  text : Bytes
  locked : Bytes

/-- What a reader is given of it. -/
def Use.payload (u : Use) : Bytes := if u.isPayload then u.text else []

/-- What locking frames with the given payloads uses a cipher for. -/
def lockUses (c : Crypto.Aead) (uses : Nat) : List Bytes → List Use
  | [] => []
  | p :: rest =>
    let header := Bytes.ofWord (UInt16.ofNat p.length)
    ⟨c, nonce uses, false, header, c.lock (nonce uses) header⟩ ::
      ⟨c, nonce (uses + 1), true, p, c.lock (nonce (uses + 1)) p⟩ :: lockUses c (uses + 2) rest

/-- What opening the front of `held` uses a cipher for, up to the first failure. -/
def openUses (c : Crypto.Aead) (uses : Nat) (expected : Option Nat) (held : Bytes) : List Use :=
  let size := lockedLength expected
  if h : held.length < size then []
  else
    have : (held.drop size).length < held.length := by
      simp only [List.length_drop, size, lockedLength, Crypto.tagLength] at h ⊢
      omega
    match c.unlock? (nonce uses) (held.take size) with
    | none => []
    | some text =>
      ⟨c, nonce uses, expected.isSome, text, held.take size⟩ ::
        openUses c (uses + 1) (if expected.isSome then none else some (announced text))
          (held.drop size)
termination_by held.length
decreasing_by all_goals assumption

section Uses

variable {c : Crypto.Aead} {uses : Nat} {expected : Option Nat} {locked rest text held : Bytes}

theorem openUses_of_lt (h : held.length < lockedLength expected) :
    openUses c uses expected held = [] := by
  rw [openUses]
  exact dif_pos h

theorem openUses_of_refused (hl : locked.length = lockedLength expected)
    (hu : c.unlock? (nonce uses) locked = none) :
    openUses c uses expected (locked ++ rest) = [] := by
  have hle : ¬ (locked ++ rest).length < lockedLength expected := by
    rw [List.length_append]
    omega
  rw [openUses, dif_neg hle]
  simp only [List.take_left' hl, hu]

theorem openUses_of_opened (hl : locked.length = lockedLength expected)
    (hu : c.unlock? (nonce uses) locked = some text) :
    openUses c uses expected (locked ++ rest) =
      ⟨c, nonce uses, expected.isSome, text, locked⟩ ::
        openUses c (uses + 1) (if expected.isSome then none else some (announced text)) rest := by
  have hle : ¬ (locked ++ rest).length < lockedLength expected := by
    rw [List.length_append]
    omega
  rw [openUses, dif_neg hle]
  simp only [List.take_left' hl, List.drop_left' hl, hu]

theorem lockUses_eq_messages (c : Crypto.Aead) (uses : Nat) (payloads : List Bytes) :
    (lockUses c uses payloads).map (·.text) = messages payloads := by
  induction payloads generalizing uses with
  | nil => rfl
  | cons p rest ih =>
    rw [lockUses, List.map_cons, List.map_cons, ih]
    rfl

theorem locked_lockUses (c : Crypto.Aead) (uses : Nat) (payloads : List Bytes) :
    (lockUses c uses payloads).flatMap (·.locked) = lockFrames c uses payloads := by
  induction payloads generalizing uses with
  | nil => rfl
  | cons p rest ih =>
    rw [lockUses, List.flatMap_cons, List.flatMap_cons, ih, lockFrames, List.append_assoc]

theorem lockUses_append (c : Crypto.Aead) (uses : Nat) (a b : List Bytes) :
    lockUses c uses (a ++ b) = lockUses c uses a ++ lockUses c (uses + 2 * a.length) b := by
  induction a generalizing uses with
  | nil => rfl
  | cons p a ih =>
    have hn : uses + 2 + 2 * a.length = uses + 2 * (p :: a).length := by
      rw [List.length_cons]
      omega
    simp only [List.cons_append, lockUses, ih, hn]

theorem length_lockUses (c : Crypto.Aead) (uses : Nat) (payloads : List Bytes) :
    (lockUses c uses payloads).length = 2 * payloads.length := by
  rw [← length_messages, ← lockUses_eq_messages c uses, List.length_map]

theorem getElem?_lockUses {payloads : List Bytes} {k : Nat} {u : Use}
    (h : (lockUses c uses payloads)[k]? = some u) :
    u.cipher = c ∧ u.nonce = nonce (uses + k) ∧ u.locked = c.lock u.nonce u.text := by
  induction payloads generalizing uses k with
  | nil => cases h
  | cons p rest ih =>
    match k, h with
    | 0, h =>
      cases h
      exact ⟨rfl, rfl, rfl⟩
    | 1, h =>
      cases h
      exact ⟨rfl, rfl, rfl⟩
    | k + 2, h =>
      obtain ⟨hc, hn, hl⟩ := ih h
      refine ⟨hc, ?_, hl⟩
      rw [hn, Nat.add_assoc, Nat.add_comm 2]

theorem nodup_lockUses {payloads : List Bytes} (h : (lockUses c 0 payloads).length ≤ 2 ^ 96) :
    ((lockUses c 0 payloads).map (·.nonce)).Nodup := by
  rw [List.nodup_iff_injective_getElem]
  rintro ⟨i, hi⟩ ⟨j, hj⟩ heq
  rw [List.length_map] at hi hj
  dsimp only at heq
  rw [List.getElem_map, List.getElem_map, (getElem?_lockUses (List.getElem?_eq_getElem hi)).2.1,
    (getElem?_lockUses (List.getElem?_eq_getElem hj)).2.1, Nat.zero_add, Nat.zero_add] at heq
  exact Fin.ext (nonce_injective heq (Nat.lt_of_lt_of_le hi h) (Nat.lt_of_lt_of_le hj h))

/-- A log of what has opened with one cipher, from the use with number `uses` on. -/
def OpenedFrom (c : Crypto.Aead) (uses : Nat) (log : List Use) : Prop :=
  ∀ j u, log[j]? = some u →
    u.cipher = c ∧ u.nonce = nonce (uses + j) ∧ c.unlock? u.nonce u.locked = some u.text

theorem OpenedFrom.cons {first : Use} {more : List Use} (hc : first.cipher = c)
    (hn : first.nonce = nonce uses) (hu : c.unlock? first.nonce first.locked = some first.text)
    (h : OpenedFrom c (uses + 1) more) : OpenedFrom c uses (first :: more) := by
  intro j u hj
  cases j with
  | zero =>
    cases hj
    exact ⟨hc, hn, hu⟩
  | succ j =>
    obtain ⟨hc, hn, hu⟩ := h j u hj
    refine ⟨hc, ?_, hu⟩
    rw [hn, Nat.add_assoc, Nat.add_comm 1]

theorem OpenedFrom.append {log more : List Use} (h : OpenedFrom c 0 log)
    (hmore : OpenedFrom c log.length more) : OpenedFrom c 0 (log ++ more) := by
  intro j u hj
  rw [List.getElem?_append] at hj
  split at hj
  · exact h j u hj
  · obtain ⟨hc, hn, hu⟩ := hmore _ u hj
    refine ⟨hc, ?_, hu⟩
    rw [hn]
    congr 1
    omega

theorem openedFrom_openUses (c : Crypto.Aead) (uses : Nat) (expected : Option Nat) (held : Bytes) :
    OpenedFrom c uses (openUses c uses expected held) := by
  induction uses, expected, held using openFrames_induction c with
  | short uses expected held hlt =>
    rw [openUses_of_lt hlt]
    exact nofun
  | refused uses expected locked rest hl hu =>
    rw [openUses_of_refused hl hu]
    exact nofun
  | header uses locked header rest hl hu ih =>
    rw [openUses_of_opened hl hu]
    exact .cons rfl rfl hu ih
  | payload uses n locked payload rest hl hu ih =>
    rw [openUses_of_opened hl hu]
    exact .cons rfl rfl hu ih

/-- Opening counts what has opened, takes it off the front, and gives its payloads. -/
theorem openFrames_openUses (c : Crypto.Aead) (uses : Nat) (expected : Option Nat) (held : Bytes) :
    let r := openFrames c uses expected held
    let opened := openUses c uses expected held
    r.uses = uses + opened.length ∧ opened.flatMap (·.locked) ++ r.held = held ∧
      r.text = opened.flatMap Use.payload := by
  induction uses, expected, held using openFrames_induction c with
  | short uses expected held hlt =>
    rw [openFrames_of_lt hlt, openUses_of_lt hlt]
    exact ⟨rfl, rfl, rfl⟩
  | refused uses expected locked rest hl hu =>
    rw [openFrames_of_refused hl hu, openUses_of_refused hl hu]
    exact ⟨rfl, rfl, rfl⟩
  | header uses locked header rest hl hu ih =>
    obtain ⟨hn, hfront, ht⟩ := ih
    rw [openFrames_header hl hu, openUses_of_opened hl hu]
    refine ⟨hn.trans ?_, ?_, ht⟩
    · rw [List.length_cons, Nat.add_assoc, Nat.add_comm 1]
      rfl
    · rw [List.flatMap_cons, List.append_assoc]
      exact congrArg (locked ++ ·) hfront
  | payload uses n locked payload rest hl hu ih =>
    obtain ⟨hn, hfront, ht⟩ := ih
    rw [openFrames_payload hl hu, openUses_of_opened hl hu]
    refine ⟨hn.trans ?_, ?_, congrArg (payload ++ ·) ht⟩
    · rw [List.length_cons, Nat.add_assoc, Nat.add_comm 1]
      rfl
    · rw [List.flatMap_cons, List.append_assoc]
      exact congrArg (locked ++ ·) hfront

end Uses

namespace Keyed

/-- What sealing a text uses the cipher for; a keystream has no nonces. -/
def seals (text : Bytes) : Keyed → List Use
  | frames c uses => lockUses c uses (Bytes.pieces maxPayload text)
  | keystream _ => []

def opens (expected : Option Nat) (held : Bytes) : Keyed → List Use
  | frames c uses => openUses c uses expected held
  | keystream _ => []

end Keyed

namespace Sealer

/-- What a session uses its cipher for, for texts that come one after another. -/
def log (s : Sealer) (e : Entropy) : List Bytes → List Use
  | [] => []
  | text :: rest =>
    let k := s.keyed.getD (s.key.keyed (e.draw s.key.suite.saltLength))
    k.seals text ++ (s.update e text).2.1.log (s.update e text).2.2 rest

theorem log_keyed (key : SharedKey) (c : Crypto.Aead) (uses : Nat) (e : Entropy)
    (texts : List Bytes) :
    (⟨key, some (.frames c uses)⟩ : Sealer).log e texts = lockUses c uses (payloads texts) := by
  induction texts generalizing uses with
  | nil => rfl
  | cons text rest ih =>
    rw [payloads, List.flatMap_cons, lockUses_append, ← payloads, ← ih]
    rfl

theorem log_fresh {key : SharedKey} (hk : key.suite.authenticates = true) (e : Entropy)
    (texts : List Bytes) :
    ({ key } : Sealer).log e texts =
      lockUses (key.suite.aead (subkey key.master (e.draw key.suite.saltLength))) 0
        (payloads texts) := by
  cases texts with
  | nil => rfl
  | cons text rest =>
    rw [← log_keyed key _ 0 (e.after key.suite.saltLength)]
    simp only [log, update, Option.getD_none, Option.getD_some, SharedKey.keyed_of_authenticates hk]

/-- A session has counted what it has locked. -/
theorem feed_counts (key : SharedKey) (c : Crypto.Aead) (uses : Nat) (e : Entropy)
    (texts : List Bytes) :
    ((Encryptor.stream ⟨key, some (.frames c uses)⟩).feed e texts).2.1 =
      .stream ⟨key, some (.frames c (uses + (lockUses c uses (payloads texts)).length))⟩ := by
  induction texts generalizing uses with
  | nil => rfl
  | cons text rest ih =>
    refine (ih (uses + 2 * (Bytes.pieces maxPayload text).length)).trans ?_
    simp only [length_lockUses, payloads, List.flatMap_cons, List.length_append, Nat.mul_add,
      Nat.add_assoc]

theorem feed_fresh_counts {key : SharedKey} (hk : key.suite.authenticates = true) (e : Entropy)
    {texts : List Bytes} (ht : texts ≠ []) :
    ((Encryptor.stream { key }).feed e texts).2.1 = .stream ⟨key, some (.frames
      (key.suite.aead (subkey key.master (e.draw key.suite.saltLength)))
      (({ key } : Sealer).log e texts).length)⟩ := by
  obtain ⟨text, rest, rfl⟩ := List.exists_cons_of_ne_nil ht
  have hkeyed := feed_counts key (key.suite.aead (subkey key.master (e.draw key.suite.saltLength)))
    0 (e.after key.suite.saltLength) (text :: rest)
  rw [Nat.zero_add] at hkeyed
  rw [log_fresh hk, ← hkeyed]
  simp only [Encryptor.feed, Encryptor.update, update, SharedKey.keyed_of_authenticates hk]

end Sealer

namespace Opener

/-- What of the received opens, together with what is held. -/
def opens (s : Opener) (received : Bytes) : List Use :=
  if s.failed then []
  else
    let held := s.held ++ received
    match s.keyed with
    | some k => k.opens s.expected held
    | none =>
      let size := s.key.suite.saltLength
      if (held.take size).length < size then []
      else (s.key.keyed (held.take size)).opens s.expected (held.drop size)

/-- What a session uses its cipher for, successfully, for pieces that come one after another. -/
def log (s : Opener) : List Bytes → List Use
  | [] => []
  | piece :: rest => s.opens piece ++ (s.update piece).2.2.log rest

/-- What a session has come to when it has been given `received` and what is in `log` has opened: it
waits for its salt, or it has opened what stands behind the salt, with the cipher of that salt. -/
inductive Accounts (key : SharedKey) (s : Opener) (received : Bytes) (log : List Use) : Prop
  | waiting : s.key = key → s.keyed = none → s.failed = false → s.held = received → log = [] →
      Accounts key s received log
  | keyed (salt rest : Bytes) : salt.length = key.suite.saltLength →
      s.keyed = some (.frames (key.suite.aead (subkey key.master salt)) log.length) →
      received = salt ++ log.flatMap (·.locked) ++ rest → (s.failed = false → s.held = rest) →
      OpenedFrom (key.suite.aead (subkey key.master salt)) 0 log → Accounts key s received log

variable {key : SharedKey} {s : Opener} {received salt : Bytes} {log : List Use}

theorem accounts_unlock (s : Opener) (hs : salt.length = key.suite.saltLength)
    (hlog : OpenedFrom (key.suite.aead (subkey key.master salt)) 0 log) (held : Bytes) :
    let k := Keyed.frames (key.suite.aead (subkey key.master salt)) log.length
    let opened := k.opens s.expected held
    (s.unlock k held).2.2.Accounts key (salt ++ log.flatMap (·.locked) ++ held) (log ++ opened) ∧
      (s.unlock k held).1 = opened.flatMap Use.payload := by
  intro k opened
  obtain ⟨hn, hfront, ht⟩ := openFrames_openUses (key.suite.aead (subkey key.master salt))
    log.length s.expected held
  refine ⟨.keyed salt _ hs ?_ ?_ (fun _ => rfl) (hlog.append (openedFrom_openUses _ _ _ _)), ht⟩
  · rw [List.length_append]
    exact congrArg (fun n => some (Keyed.frames _ n)) hn
  · rw [List.flatMap_append, List.append_assoc, List.append_assoc, List.append_assoc]
    exact congrArg (fun b => salt ++ (log.flatMap (·.locked) ++ b)) hfront.symm

/-- A session counts on with every header and payload that opens. -/
theorem Accounts.update (hk : key.suite.authenticates = true) (h : s.Accounts key received log)
    (piece : Bytes) :
    (s.update piece).2.2.Accounts key (received ++ piece) (log ++ s.opens piece) ∧
      (s.update piece).1 = (s.opens piece).flatMap Use.payload := by
  unfold Opener.update opens
  cases h with
  | waiting hkey hnone hf hheld hlog =>
    subst hkey hheld hlog
    simp only [hf, hnone, Bool.false_eq_true, if_false]
    split
    · rw [List.append_nil]
      exact ⟨.waiting rfl rfl rfl rfl rfl, rfl⟩
    · -- The salt is complete with this piece, and nothing has been used yet.
      rename_i hle
      rw [SharedKey.keyed_of_authenticates hk]
      have hlen : ((s.held ++ piece).take s.key.suite.saltLength).length =
          s.key.suite.saltLength := by
        have := List.length_take_le s.key.suite.saltLength (s.held ++ piece)
        omega
      have hnil : OpenedFrom (s.key.suite.aead (subkey s.key.master
          ((s.held ++ piece).take s.key.suite.saltLength))) 0 [] := nofun
      have hunlock := accounts_unlock s hlen hnil ((s.held ++ piece).drop s.key.suite.saltLength)
      rwa [List.flatMap_nil, List.append_nil, List.take_append_drop] at hunlock
  | keyed salt rest hs hkeyed hreceived hheld hlog =>
    split
    · -- After a failure nothing opens, and all that comes is left over.
      rename_i hf
      refine ⟨.keyed salt (rest ++ piece) hs ?_ ?_ ?_ ?_, rfl⟩
      · rwa [List.append_nil]
      · rw [List.append_nil, hreceived, List.append_assoc _ rest]
      · exact fun hnf => absurd (hf.symm.trans hnf) (by decide)
      · rwa [List.append_nil]
    · rename_i hf
      have hunlock := accounts_unlock s hs hlog (s.held ++ piece)
      rw [hheld (Bool.eq_false_iff.2 hf)] at hunlock
      rw [hkeyed, hreceived, hheld (Bool.eq_false_iff.2 hf), List.append_assoc _ rest]
      exact hunlock

/-- So it does over a whole stream, in whatever pieces. -/
theorem Accounts.feed (hk : key.suite.authenticates = true) (h : s.Accounts key received log)
    (pieces : List Bytes) :
    (∃ s', ((Decryptor.stream s).feed pieces).2 = .stream s' ∧
        s'.Accounts key (received ++ pieces.flatten) (log ++ s.log pieces)) ∧
      ((Decryptor.stream s).feed pieces).1.flatMap (·.1) =
        (s.log pieces).flatMap Use.payload := by
  induction pieces generalizing s received log with
  | nil =>
    refine ⟨⟨s, rfl, ?_⟩, rfl⟩
    rwa [List.flatten_nil, List.append_nil, Opener.log, List.append_nil]
  | cons piece rest ih =>
    obtain ⟨hupdate, htext⟩ := h.update hk piece
    obtain ⟨⟨s', hs', hrest⟩, hmore⟩ := ih hupdate
    refine ⟨⟨s', hs', ?_⟩, ?_⟩
    · rwa [List.flatten_cons, Opener.log, ← List.append_assoc, ← List.append_assoc]
    · rw [Opener.log, List.flatMap_append, ← hmore, ← htext]
      rfl

end Opener

/-- **Nonces count up.** What a session sends is its salt and then what its log says was locked: a
header and a payload for each frame, with the one key that the salt gives. The entry with number `k`
has the nonce `k` modulo 2^96, in twelve bytes, the low one first; so up to 2^96 entries have
different nonces. What the other end receives, from whom and in whatever pieces, starts with what its
log says has opened, behind a salt and with the key of that salt, and what it gives out are the
payloads; the entry with number `j` has opened with the nonce that the entry `j` was locked with.
Each session's own count is the length of its log. -/
theorem SharedKey.nonces_count_up {key : SharedKey} (hk : key.suite.authenticates = true)
    (e : Entropy) (texts pieces : List Bytes) :
    let cipher := fun salt => key.suite.aead (subkey key.master salt)
    let salt := e.draw key.suite.saltLength
    let seals := ({ key } : Sealer).log e texts
    let opens := ({ key } : Opener).log pieces
    let sent := (key.pair false).encryptor.feed e texts
    let read := (key.pair false).decryptor.feed pieces
    (sent.1.flatten = (if texts = [] then [] else salt) ++ seals.flatMap (·.locked) ∧
      (texts ≠ [] → sent.2.1 = .stream ⟨key, some (.frames (cipher salt) seals.length)⟩) ∧
      seals.map (·.text) = messages (payloads texts) ∧
      (∀ k u, seals[k]? = some u → u.cipher = cipher salt ∧
        u.nonce = Bytes.littleEndian 12 (k % 2 ^ 96) ∧ u.locked = (cipher salt).lock u.nonce u.text) ∧
      (seals.length ≤ 2 ^ 96 → (seals.map (·.nonce)).Nodup)) ∧
    (read.1.flatMap (·.1) = opens.flatMap Use.payload ∧
      (opens = [] ∨ ∃ salt rest s, salt.length = key.suite.saltLength ∧
        pieces.flatten = salt ++ opens.flatMap (·.locked) ++ rest ∧ read.2 = .stream s ∧
        s.keyed = some (.frames (cipher salt) opens.length) ∧
        ∀ j u, opens[j]? = some u → u.cipher = cipher salt ∧
          u.nonce = Bytes.littleEndian 12 (j % 2 ^ 96) ∧
          (cipher salt).unlock? u.nonce u.locked = some u.text)) := by
  intro cipher salt seals opens sent read
  have hseals : seals = lockUses (cipher salt) 0 (payloads texts) := Sealer.log_fresh hk e texts
  have hfresh : ({ key } : Opener).Accounts key [] [] := .waiting rfl rfl rfl rfl rfl
  obtain ⟨⟨s, hs, haccounts⟩, htext⟩ := hfresh.feed hk pieces
  refine ⟨⟨?_, Sealer.feed_fresh_counts hk e, ?_, fun k u hu => ?_, fun hlen => ?_⟩, htext, ?_⟩
  · rw [hseals, locked_lockUses]
    cases texts with
    | nil => rfl
    | cons text rest =>
      rw [if_neg (List.cons_ne_nil _ _)]
      refine (Encryptor.flatten_feed_fresh key e text rest).trans ?_
      rw [keyed_of_authenticates hk, Keyed.wire]
  · rw [hseals, lockUses_eq_messages]
  · rw [hseals] at hu
    rw [← nonce_eq_mod]
    simpa only [Nat.zero_add] using getElem?_lockUses hu
  · rw [hseals] at hlen ⊢
    exact nodup_lockUses hlen
  · cases haccounts with
    | waiting _ _ _ _ hnil => exact .inl hnil
    | keyed salt rest hlen hkeyed hreceived _ hlog =>
      refine .inr ⟨salt, rest, s, hlen, hreceived, hs, hkeyed, fun j u hu => ?_⟩
      rw [← nonce_eq_mod]
      simpa only [Nat.zero_add] using hlog j u hu

/-- Two texts, and an end that receives both of them. -/
theorem SharedKey.nonces_count_up_of_two :
    let key := SharedKey.ofSecret .aes128Gcm "secret"
    let texts : List Bytes := [[1, 2, 3], [4]]
    let seals := ({ key } : Sealer).log {} texts
    let sent := ((key.pair false).encryptor.feed {} texts).1
    let opens := ({ key } : Opener).log sent
    key.suite.authenticates = true ∧ seals.length = 4 ∧
      seals.map (·.text) = [[0, 3], [1, 2, 3], [0, 1], [4]] ∧ (seals.map (·.nonce)).Nodup ∧
      opens.flatMap Use.payload = [1, 2, 3, 4] ∧
      ∀ j u, opens[j]? = some u → u.nonce = Bytes.littleEndian 12 (j % 2 ^ 96) := by
  intro key texts seals sent opens
  have hk : key.suite.authenticates = true := rfl
  obtain ⟨⟨-, -, htexts, -, hnodup⟩, hopened, hopens⟩ := nonces_count_up hk {} texts sent
  have hpayloads : payloads ([[1, 2, 3]] ++ [[4]]) = [[1, 2, 3]] ++ [[4]] := by
    rw [payloads, List.flatMap_append, ← payloads, ← payloads,
      payloads_singleton (List.cons_ne_nil 1 [2, 3]) (by decide),
      payloads_singleton (List.cons_ne_nil 4 []) (by decide)]
  replace htexts := htexts.trans (congrArg messages hpayloads)
  have hlen : seals.length = 4 := (List.length_map _).symm.trans (congrArg List.length htexts)
  have hread : opens.flatMap Use.payload = [1, 2, 3, 4] :=
    hopened.symm.trans (key.feed_sent {} texts sent rfl).2.1
  refine ⟨hk, hlen, htexts, hnodup (by rw [hlen]; decide), hread, fun j u hu => ?_⟩
  rcases hopens with hnil | ⟨salt, rest, s, -, -, -, -, hnonce⟩
  · have hnone : opens = [] := hnil
    rw [hnone] at hu
    cases hu
  · exact (hnonce j u hu).2.1

end Cipher

end SocksChain
