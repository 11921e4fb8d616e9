import SocksChain.Proofs.Socks.Grammar

/-!
The verdict of a negotiation on a byte string with nothing behind it, as if all of it had come at
once. It admits a client exactly if a handshake of the grammar stands in front, and then leaves
what follows that handshake.
-/

namespace SocksChain.Socks

/-- What a client is admitted for and whether it has proved itself, or why it is not admitted; what
was sent to it; and the bytes that are left. -/
structure Verdict where
  result : Except Failure (Intent × Bool)
  said : Bytes
  rest : Bytes

/-- Whether a client is admitted for `i`, having proved itself or not, with `r` left. -/
def Verdict.Admits (v : Verdict) (i : Intent) (proved : Bool) (r : Bytes) : Prop :=
  v.result = .ok (i, proved) ∧ v.rest = r

/-- What a request is granted, if anything. -/
def Request.intent? (registrations : Bool) (relay : Except IoError Ip.Socket) (q : Request) :
    Option Intent :=
  if q.command = Command.connect then some (.connect q.address.toEndpoint)
  else if q.command = Command.associate then relay.toOption.map .associate
  else if q.command = Command.register ∧ registrations then some (.register q.address.toEndpoint)
  else none

section Requests

variable {registrations : Bool} {relay : Except IoError Ip.Socket} {i : Intent}

theorem readRequest_append {b : Bytes} {a : Address} (hb : Address.parse b = .ok (some (a, [])))
    (command reserved : UInt8) (r : Bytes) : ∃ kind,
      readRequest (protocolVersion :: command :: reserved :: b ++ r) =
        .ok (some (⟨command, kind, a⟩, r)) := by
  obtain ⟨kind, front, he, hf⟩ := Address.exists_of_parse hb
  rw [List.append_nil] at he
  subst he
  exact ⟨kind, readRequest_eq_some_iff.mpr ⟨reserved, front, rfl, hf⟩⟩

theorem Asks.exists_readRequest {c : Bytes} (h : Asks registrations relay c i) (r : Bytes) :
    ∃ q, readRequest (c ++ r) = .ok (some (q, r)) ∧ q.intent? registrations relay = some i := by
  cases h with
  | connect hb =>
    obtain ⟨kind, hq⟩ := readRequest_append hb _ _ r
    exact ⟨_, hq, rfl⟩
  | associate hb hrelay =>
    obtain ⟨kind, hq⟩ := readRequest_append hb _ _ r
    refine ⟨_, hq, ?_⟩
    rw [hrelay]
    rfl
  | register hb hreg =>
    obtain ⟨kind, hq⟩ := readRequest_append hb _ _ r
    refine ⟨_, hq, ?_⟩
    rw [hreg]
    rfl

theorem asks_of_intent? {q : Request} (hi : q.intent? registrations relay = some i)
    {front : Bytes} (hf : Address.parse (q.kind :: front) = .ok (some (q.address, [])))
    (reserved : UInt8) :
    Asks registrations relay (protocolVersion :: q.command :: reserved :: q.kind :: front) i := by
  unfold Request.intent? at hi
  split at hi
  · rename_i hc
    cases hi
    rw [hc]
    exact .connect hf
  · split at hi
    · rename_i hc
      rw [hc]
      cases relay with
      | error e => cases hi
      | ok bound =>
        cases hi
        exact .associate hf rfl
    · split at hi
      · rename_i hc
        cases hi
        rw [hc.1]
        exact .register hf hc.2
      · cases hi

theorem asks_append_iff {s r : Bytes} : (∃ c, Asks registrations relay c i ∧ s = c ++ r) ↔
    ∃ q, readRequest s = .ok (some (q, r)) ∧ q.intent? registrations relay = some i := by
  constructor
  · intro h
    obtain ⟨c, hc, rfl⟩ := h
    exact hc.exists_readRequest r
  · intro h
    obtain ⟨q, hq, hi⟩ := h
    obtain ⟨reserved, front, rfl, hf⟩ := readRequest_eq_some_iff.mp hq
    exact ⟨_, asks_of_intent? hi hf reserved, rfl⟩

end Requests

/-- What a turn grants to a client, if anything. -/
def Outcome.granted? (relay : Except IoError Ip.Socket) : Outcome → Option Intent
  | connect _ destination => some (.connect destination)
  | associate _ => relay.toOption.map .associate
  | register real => some (.register real)
  | _ => none

namespace Negotiation

variable {relay : Except IoError Ip.Socket} {m : Negotiation} {s : Bytes}

/-- The verdict on a byte string with the end of input behind it. -/
def judge (relay : Except IoError Ip.Socket) (m : Negotiation) (s : Bytes) : Verdict :=
  match h : (m.advance s).outcome with
  | .abort f => ⟨.error (.socks f), [], (m.advance s).rest⟩
  | .needMore => ⟨.error (.protocol (.closedDuring m.stage.name)), [], (m.advance s).rest⟩
  | .reply message =>
    have := remaining_lt_of_reply h
    let v := judge relay (m.advance s).machine (m.advance s).rest
    { v with said := message ++ v.said }
  | .connect message destination =>
    ⟨.ok (.connect destination, m.authenticated), message, (m.advance s).rest⟩
  | .associate _ =>
    match relay with
    | .error e => ⟨.error (.io e), [], (m.advance s).rest⟩
    | .ok bound =>
      ⟨.ok (.associate bound, m.authenticated), associateReply bound, (m.advance s).rest⟩
  | .register real => ⟨.ok (.register real, m.authenticated), [], (m.advance s).rest⟩
  | .reject message f => ⟨.error (.socks f), message, (m.advance s).rest⟩
termination_by m.stage.remaining

theorem judge_eq : m.judge relay s =
    match (m.advance s).outcome with
    | .abort f => ⟨.error (.socks f), [], (m.advance s).rest⟩
    | .needMore => ⟨.error (.protocol (.closedDuring m.stage.name)), [], (m.advance s).rest⟩
    | .reply message =>
      let v := (m.advance s).machine.judge relay (m.advance s).rest
      { v with said := message ++ v.said }
    | .connect message destination =>
      ⟨.ok (.connect destination, m.authenticated), message, (m.advance s).rest⟩
    | .associate _ =>
      match relay with
      | .error e => ⟨.error (.io e), [], (m.advance s).rest⟩
      | .ok bound =>
        ⟨.ok (.associate bound, m.authenticated), associateReply bound, (m.advance s).rest⟩
    | .register real => ⟨.ok (.register real, m.authenticated), [], (m.advance s).rest⟩
    | .reject message f => ⟨.error (.socks f), message, (m.advance s).rest⟩ := by
  rw [judge.eq_def]
  split <;> rename_i h <;> simp only [h]

/-- A turn that neither waits nor replies has the same verdict whatever comes behind it. -/
theorem judge_append (hw : (m.advance s).outcome ≠ .needMore)
    (hr : ∀ message, (m.advance s).outcome ≠ .reply message) (t : Bytes) :
    m.judge relay (s ++ t) = { m.judge relay s with rest := (m.advance s).rest ++ t } := by
  have hfull : m.judge relay (s ++ t) = _ := judge_eq
  have hpart : m.judge relay s = _ := judge_eq
  rw [m.advance_append t hw] at hfull
  simp only [Turn.extend] at hfull
  match ho : (m.advance s).outcome with
  | .needMore => exact absurd ho hw
  | .reply message => exact absurd ho (hr message)
  | .associate hint =>
    rw [ho] at hfull hpart
    rw [hfull, hpart]
    cases relay <;> rfl
  | .abort f | .connect message e | .register real | .reject message f =>
    rw [ho] at hfull hpart
    rw [hfull, hpart]

theorem judge_append_of_reply {message : Bytes} (h : (m.advance s).outcome = .reply message)
    (t : Bytes) : m.judge relay (s ++ t) =
      let v := (m.advance s).machine.judge relay ((m.advance s).rest ++ t)
      { v with said := message ++ v.said } := by
  rw [judge_eq, m.advance_append t (by rw [h]; simp)]
  simp only [Turn.extend, h]

/-- A turn that is no reply ends the negotiation, and admits a client if it grants something. -/
theorem judge_admits_iff_granted (h : ∀ message, (m.advance s).outcome ≠ .reply message)
    {i : Intent} {proved : Bool} {r : Bytes} : (m.judge relay s).Admits i proved r ↔
      (m.advance s).outcome.granted? relay = some i ∧ m.authenticated = proved ∧
        (m.advance s).rest = r := by
  rw [judge_eq, Verdict.Admits]
  match ho : (m.advance s).outcome with
  | .reply message => exact absurd ho (h message)
  | .associate hint => cases relay <;> simp [Outcome.granted?, Except.toOption, and_assoc]
  | .abort f | .needMore | .connect message e | .register real | .reject message f =>
    simp [Outcome.granted?, and_assoc]

theorem onRequest_ne_reply (m : Negotiation) (s message : Bytes) :
    (m.onRequest s).outcome ≠ .reply message := by
  unfold onRequest
  intro h
  split at h
  · cases h
  · cases h
  · cases h
  · dsimp only at h
    split at h
    · cases h
    · split at h
      · cases h
      · split at h <;> cases h

theorem onRequest_granted_iff {i : Intent} {r : Bytes} :
    (m.onRequest s).outcome.granted? relay = some i ∧ (m.onRequest s).rest = r ↔
      ∃ q, readRequest s = .ok (some (q, r)) ∧ q.intent? m.registrations relay = some i := by
  unfold onRequest
  match hq : readRequest s with
  | .ok none => simp [Outcome.granted?]
  | .error f => cases f <;> simp [Outcome.granted?]
  | .ok (some (q, rest)) =>
    have hx : ∀ q', (Except.ok (some (q, rest)) : Reading Request) = .ok (some (q', r)) ↔
        q = q' ∧ rest = r := by simp
    simp only [hx, and_assoc, exists_eq_left', Request.intent?]
    split
    · simp [Outcome.granted?, and_comm]
    · split
      · simp [Outcome.granted?, and_comm]
      · split <;> simp [Outcome.granted?, and_comm]

theorem judge_admits_of_request (hs : m.stage = .request) {i : Intent} {proved : Bool} {r : Bytes} :
    (m.judge relay s).Admits i proved r ↔
      proved = m.authenticated ∧ ∃ c, Asks m.registrations relay c i ∧ s = c ++ r := by
  have hadv : m.advance s = m.onRequest s := by simp only [advance, hs]
  rw [judge_admits_iff_granted (by rw [hadv]; exact m.onRequest_ne_reply s), hadv, asks_append_iff,
    ← onRequest_granted_iff]
  constructor
  · intro h
    obtain ⟨hi, rfl, hr⟩ := h
    exact ⟨rfl, hi, hr⟩
  · intro h
    obtain ⟨rfl, hi, hr⟩ := h
    exact ⟨hi, rfl, hr⟩

/-- A turn that grants nothing admits a client only through a reply and what comes after it. -/
theorem judge_admits_iff_reply (h : (m.advance s).outcome.granted? relay = none)
    {i : Intent} {proved : Bool} {r : Bytes} : (m.judge relay s).Admits i proved r ↔
      ∃ message m' rest, m.advance s = ⟨.reply message, m', rest⟩ ∧
        (m'.judge relay rest).Admits i proved r := by
  constructor
  · intro ha
    by_cases hr : ∃ message, (m.advance s).outcome = .reply message
    · obtain ⟨message, hr⟩ := hr
      rw [judge_eq, hr] at ha
      exact ⟨message, _, _, by rw [← hr], ha⟩
    · have hn := (judge_admits_iff_granted (fun message hm => hr ⟨message, hm⟩)).mp ha
      rw [h] at hn
      cases hn.1
  · intro h
    obtain ⟨message, m', rest, hr, ha⟩ := h
    rw [judge_eq, hr]
    exact ha

theorem onGreeting_granted (m : Negotiation) (s : Bytes) :
    (m.onGreeting s).outcome.granted? relay = none := by
  unfold onGreeting
  split
  · rfl
  · rfl
  · split <;> rfl

theorem onPassword_granted (m : Negotiation) (s : Bytes) :
    (m.onPassword s).outcome.granted? relay = none := by
  unfold onPassword
  split
  · rfl
  · rfl
  · split
    · rfl
    · rfl
    · split <;> rfl

theorem onGreeting_eq_reply_iff {m' : Negotiation} {rest : Bytes} :
    (∃ message, m.onGreeting s = ⟨.reply message, m', rest⟩) ↔
      m' = { m with stage := m.stageAfterGreeting } ∧ ∃ g, m.Greets g ∧ s = g ++ rest := by
  unfold onGreeting
  constructor
  · intro h
    obtain ⟨message, h⟩ := h
    split at h
    · cases h
    · cases h
    · rename_i methods rest' hr
      split at h
      · rename_i hw
        cases h
        obtain ⟨n, rfl, hpos, hn⟩ := readGreeting_eq_some_iff.mp hr
        exact ⟨rfl, _, ⟨n, methods, rfl, hpos, hn, by simpa using hw⟩, rfl⟩
      · cases h
  · intro h
    obtain ⟨rfl, g, ⟨n, methods, rfl, hpos, hn, hw⟩, rfl⟩ := h
    rw [readGreeting_eq_some_iff.mpr ⟨n, rfl, hpos, hn⟩]
    simp only
    rw [if_pos (by simpa using hw)]
    exact ⟨_, rfl⟩

theorem onPassword_eq_reply_iff {m' : Negotiation} {rest : Bytes} :
    (∃ message, m.onPassword s = ⟨.reply message, m', rest⟩) ↔
      m' = { m with stage := .request, authenticated := true } ∧
        ∃ c p, m.credentials = some c ∧ Presents c p ∧ s = p ++ rest := by
  unfold onPassword
  constructor
  · intro h
    obtain ⟨message, h⟩ := h
    split at h
    · cases h
    · cases h
    · rename_i name secret rest' hr
      split at h
      · cases h
      · cases h
      · rename_i username password hu hp
        split at h
        · rename_i hc
          cases h
          obtain ⟨n, k, rfl, hn, hk⟩ := readPassword_eq_some_iff.mp hr
          have hname := Bytes.ofText_of_toText? hu
          have hsecret := Bytes.ofText_of_toText? hp
          subst hname hsecret
          exact ⟨rfl, _, _, hc, ⟨n, k, rfl, hn, hk⟩, rfl⟩
        · cases h
  · intro h
    obtain ⟨rfl, c, p, hc, ⟨n, k, rfl, hn, hk⟩, rfl⟩ := h
    rw [readPassword_eq_some_iff.mpr ⟨n, k, rfl, hn, hk⟩]
    simp only [Bytes.toText?_ofText, hc, if_true]
    exact ⟨_, rfl⟩

theorem judge_admits_of_password (hs : m.stage = .password) {i : Intent} {proved : Bool}
    {r : Bytes} : (m.judge relay s).Admits i proved r ↔
      proved = true ∧ ∃ k p c, m.credentials = some k ∧ Presents k p ∧
        Asks m.registrations relay c i ∧ s = p ++ c ++ r := by
  have hadv : m.advance s = m.onPassword s := by simp only [advance, hs]
  rw [judge_admits_iff_reply (by rw [hadv]; exact m.onPassword_granted s), hadv]
  constructor
  · intro h
    obtain ⟨message, m', rest, hx, ha⟩ := h
    obtain ⟨rfl, k, p, hk, hp, rfl⟩ := onPassword_eq_reply_iff.mp ⟨message, hx⟩
    obtain ⟨rfl, c, hc, rfl⟩ := (judge_admits_of_request rfl).mp ha
    exact ⟨rfl, k, p, c, hk, hp, hc, by rw [List.append_assoc]⟩
  · intro h
    obtain ⟨rfl, k, p, c, hk, hp, hc, rfl⟩ := h
    rw [List.append_assoc]
    obtain ⟨message, hx⟩ := onPassword_eq_reply_iff.mpr ⟨rfl, k, p, hk, hp, rfl⟩
    exact ⟨message, _, _, hx, (judge_admits_of_request rfl).mpr ⟨rfl, c, hc, rfl⟩⟩

/-- What is still to come of a client once it has been greeted. -/
theorem judge_admits_after_greeting (hm : m.authenticated = false) {i : Intent} {proved : Bool}
    {r : Bytes} :
    (({ m with stage := m.stageAfterGreeting } : Negotiation).judge relay s).Admits i proved r ↔
      proved = m.requiresPassword ∧ ∃ p c, m.Proves p ∧ Asks m.registrations relay c i ∧
        s = p ++ c ++ r := by
  unfold Proves stageAfterGreeting
  cases hreq : m.requiresPassword with
  | true =>
    rw [if_pos rfl, judge_admits_of_password rfl]
    constructor
    · intro h
      obtain ⟨rfl, k, p, c, hk, hp, hc, rfl⟩ := h
      exact ⟨rfl, p, c, ⟨k, hk, hp⟩, hc, rfl⟩
    · intro h
      obtain ⟨rfl, p, c, ⟨k, hk, hp⟩, hc, rfl⟩ := h
      exact ⟨rfl, k, p, c, hk, hp, hc, rfl⟩
  | false =>
    rw [if_neg Bool.false_ne_true, judge_admits_of_request rfl]
    constructor
    · intro h
      obtain ⟨rfl, c, hc, rfl⟩ := h
      exact ⟨hm, [], c, rfl, hc, rfl⟩
    · intro h
      obtain ⟨rfl, p, c, rfl, hc, rfl⟩ := h
      exact ⟨hm.symm, c, hc, rfl⟩

/-- **A negotiation at its start admits exactly the handshakes of the grammar**, and takes a client
for authenticated exactly if it wanted a password. -/
theorem judge_admits_iff (hs : m.stage = .greeting) (hm : m.authenticated = false) {i : Intent}
    {proved : Bool} {r : Bytes} : (m.judge relay s).Admits i proved r ↔
      proved = m.requiresPassword ∧ ∃ g p c, m.Greets g ∧ m.Proves p ∧
        Asks m.registrations relay c i ∧ s = g ++ p ++ c ++ r := by
  have hadv : m.advance s = m.onGreeting s := by simp only [advance, hs]
  rw [judge_admits_iff_reply (by rw [hadv]; exact m.onGreeting_granted s), hadv]
  constructor
  · intro h
    obtain ⟨message, m', rest, hx, ha⟩ := h
    obtain ⟨rfl, g, hg, rfl⟩ := onGreeting_eq_reply_iff.mp ⟨message, hx⟩
    obtain ⟨hp, p, c, hprove, hc, rfl⟩ := (judge_admits_after_greeting hm).mp ha
    exact ⟨hp, g, p, c, hg, hprove, hc, by simp only [List.append_assoc]⟩
  · intro h
    obtain ⟨hp, g, p, c, hg, hprove, hc, rfl⟩ := h
    obtain ⟨message, hx⟩ := onGreeting_eq_reply_iff.mpr
      ⟨rfl, g, hg, (by simp only [List.append_assoc] : g ++ p ++ c ++ r = g ++ (p ++ c ++ r))⟩
    refine ⟨message, _, _, hx, ?_⟩
    exact (judge_admits_after_greeting hm).mpr ⟨hp, p, c, hprove, hc, rfl⟩

end Negotiation

end SocksChain.Socks
