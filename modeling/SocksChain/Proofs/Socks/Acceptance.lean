import SocksChain.Proofs.Socks.Verdict

/-!
What is said to a client that is accepted for a connection: the chosen method, that its password is
right if it had to give one, and that its request is granted. All of its handshake is used up by
that, and nothing of what comes behind it.
-/

namespace SocksChain.Socks.Negotiation

variable {m : Negotiation} {relay : Except IoError Ip.Socket} {s message : Bytes}

/-- What is said before the request. -/
def preliminaries (m : Negotiation) : Bytes :=
  [protocolVersion, m.wantedMethod] ++
    if m.requiresPassword then [passwordVersion, 0] else []

/-- A whole handshake that is accepted for a connection, where to, and what is said to it. -/
inductive Connects (m : Negotiation) : Bytes → Endpoint → Bytes → Prop
  | intro {g p body : Bytes} {reserved kind : UInt8} {a : Address} :
      m.Greets g → m.Proves p → Address.parse (kind :: body) = .ok (some (a, [])) →
      Connects m (g ++ p ++ (protocolVersion :: Command.connect :: reserved :: kind :: body))
        a.toEndpoint (m.preliminaries ++ connectReply kind)

theorem eq_of_onGreeting_reply (h : (m.onGreeting s).outcome = .reply message) :
    message = [protocolVersion, m.wantedMethod] := by
  unfold onGreeting at h
  split at h
  · cases h
  · cases h
  · split at h
    · cases h
      rfl
    · cases h

theorem eq_of_onPassword_reply (h : (m.onPassword s).outcome = .reply message) :
    message = [passwordVersion, 0] := by
  unfold onPassword at h
  split at h
  · cases h
  · cases h
  · split at h
    · cases h
    · cases h
    · split at h
      · cases h
        rfl
      · cases h

/-- A verdict goes on behind a reply. -/
theorem judge_of_reply {m' : Negotiation} {rest : Bytes}
    (h : m.advance s = ⟨.reply message, m', rest⟩) : m.judge relay s =
      { m'.judge relay rest with said := message ++ (m'.judge relay rest).said } := by
  rw [judge_eq, h]

theorem judge_connect (hs : m.stage = .request) {reserved kind : UInt8} {body : Bytes}
    {a : Address} (h : Address.parse (kind :: body) = .ok (some (a, []))) (r : Bytes) :
    m.judge relay (protocolVersion :: Command.connect :: reserved :: kind :: body ++ r) =
      ⟨.ok (.connect a.toEndpoint, m.authenticated), connectReply kind, r⟩ := by
  have hread : readRequest (protocolVersion :: Command.connect :: reserved :: kind :: body ++ r) =
      .ok (some (⟨Command.connect, kind, a⟩, r)) :=
    readRequest_eq_some_iff.mpr ⟨reserved, body, rfl, h⟩
  have hadv : m.advance (protocolVersion :: Command.connect :: reserved :: kind :: body ++ r) =
      ⟨.connect (connectReply kind) a.toEndpoint, { m with stage := .established }, r⟩ := by
    simp only [advance, hs, onRequest, hread, if_true]
  rw [judge_eq, hadv]

/-- Between the greeting and the request. -/
theorem judge_after_greeting (relay : Except IoError Ip.Socket) {p : Bytes}
    (hm : m.authenticated = false) (h : m.Proves p) (rest : Bytes) : ∃ m' : Negotiation,
      m'.stage = .request ∧ m'.authenticated = m.requiresPassword ∧
      ({ m with stage := m.stageAfterGreeting } : Negotiation).judge relay (p ++ rest) =
        { m'.judge relay rest with
          said := (if m.requiresPassword then [passwordVersion, 0] else []) ++
            (m'.judge relay rest).said } := by
  unfold Proves at h
  unfold stageAfterGreeting
  cases hreq : m.requiresPassword with
  | true =>
    rw [hreq, if_pos rfl] at h
    obtain ⟨c, hc, hp⟩ := h
    obtain ⟨message, hx⟩ := (onPassword_eq_reply_iff (m := { m with stage := .password })).mpr
      ⟨rfl, c, p, hc, hp, rfl⟩
    obtain rfl := eq_of_onPassword_reply (congrArg Turn.outcome hx)
    exact ⟨_, rfl, rfl, judge_of_reply hx⟩
  | false =>
    rw [hreq, if_neg Bool.false_ne_true] at h
    subst h
    exact ⟨{ m with stage := .request }, rfl, hm, rfl⟩

/-- **The verdict on a handshake with something behind it.** -/
theorem judge_connects (hs : m.stage = .greeting) (hm : m.authenticated = false) {b said : Bytes}
    {destination : Endpoint} (h : m.Connects b destination said) (r : Bytes) :
    m.judge relay (b ++ r) = ⟨.ok (.connect destination, m.requiresPassword), said, r⟩ := by
  cases h with
  | @intro g p body reserved kind a hg hp ha =>
    have hsplit : g ++ p ++ (protocolVersion :: Command.connect :: reserved :: kind :: body) ++ r =
        g ++ (p ++ (protocolVersion :: Command.connect :: reserved :: kind :: body ++ r)) := by
      simp only [List.append_assoc]
    obtain ⟨message, hx⟩ := onGreeting_eq_reply_iff.mpr ⟨rfl, g, hg, hsplit⟩
    obtain rfl := eq_of_onGreeting_reply (congrArg Turn.outcome hx)
    obtain ⟨m', hs', hm', hj⟩ := judge_after_greeting relay hm hp
      (protocolVersion :: Command.connect :: reserved :: kind :: body ++ r)
    have hadv : ∀ s, m.advance s = m.onGreeting s := fun s => by simp only [advance, hs]
    rw [judge_of_reply ((hadv _).trans hx), hj, judge_connect hs' ha, hm', preliminaries,
      List.append_assoc]

end SocksChain.Socks.Negotiation
