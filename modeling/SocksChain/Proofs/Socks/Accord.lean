import SocksChain.Proofs.Channel.Encounter
import SocksChain.Proofs.Endpoint
import SocksChain.Proofs.Socks.Errand

/-!
A requester and a front end at the two ends of a duplex. They take turns, one message at a time, and
each message is one whole turn of the negotiation; so both come to be done, however the bytes go
over, and to results that fit together.
-/

namespace SocksChain.Socks

open Channel Dialogue Encounter

variable {α β : Type}

namespace Address

theorem exists_of_encode {a : Address} {b : Bytes} (h : a.encode = .ok b) :
    ∃ body, b = a.kind :: body := by
  unfold encode at h
  split at h
  · cases h
    exact ⟨_, rfl⟩
  · cases h
    exact ⟨_, rfl⟩
  · dsimp only at h
    split at h
    · cases h
    · cases h
      exact ⟨_, rfl⟩

theorem hears_finish {front body m left : Bytes} {a : Address} {size : Nat}
    {f : Address → Exchange α} {d : Dialogue (Except Failure α)} (hl : body.length = size)
    (hp : parse (front ++ body) = .ok (some (a, []))) (h : Hears (f a) m d left) :
    Hears (receive.finish front size >>= f : Exchange α) (body ++ m) d left := by
  unfold receive.finish
  rw [bind_assoc]
  refine Exchange.hears_readExact hl ?_
  rw [hp]
  exact h

/-- An address is read as it was written. -/
theorem hears_receive {b m left : Bytes} {a : Address} {f : Address → Exchange α}
    {d : Dialogue (Except Failure α)} (he : a.encode = .ok b) (h : Hears (f a) m d left) :
    Hears (receive >>= f : Exchange α) (b ++ m) d left := by
  have hp := parse_encode he
  unfold receive
  rw [bind_assoc]
  match a, he with
  | .ip ⟨.v4 x, p⟩, he =>
    cases he
    refine Exchange.hears_readByte ?_
    rw [if_pos rfl]
    exact hears_finish rfl (show parse ([AddressType.v4] ++ _) = _ from hp) h
  | .ip ⟨.v6 x, p⟩, he =>
    cases he
    refine Exchange.hears_readByte ?_
    rw [if_neg (by decide), if_pos rfl]
    exact hears_finish rfl (show parse ([AddressType.v6] ++ _) = _ from hp) h
  | .domain name p, he =>
    unfold encode at he
    dsimp only at he
    split at he
    · cases he
    · rename_i hl
      cases he
      refine Exchange.hears_readByte ?_
      rw [if_neg (by decide), if_neg (by decide), if_pos rfl, bind_assoc]
      refine Exchange.hears_readByte ?_
      refine hears_finish ?_ (show parse ([AddressType.domain, _] ++ _) = _ from hp) h
      show (Bytes.ofText name ++ Bytes.ofWord p).length = _
      rw [List.length_append, UInt8.toNat_ofNat_of_lt' (Nat.lt_succ_of_le (Nat.not_lt.mp hl))]
      rfl

/-- An IP address, or a host that can be counted in one byte. -/
def Writable (e : Endpoint) : Prop := e.isIp = true ∨ (Bytes.ofText e.host).length ≤ 255

theorem exists_encode_of_writable {e : Endpoint} (h : Writable e) :
    ∃ b, (ofEndpoint e).encode = .ok b := by
  match hb : (ofEndpoint e).encode with
  | .ok b => exact ⟨b, rfl⟩
  | .error f =>
    obtain ⟨name, p, ha, hl, -⟩ := encode_eq_error_iff.mp hb
    unfold ofEndpoint Endpoint.socket? at ha
    match hi : e.ip? with
    | some x =>
      rw [hi] at ha
      cases ha
    | none =>
      rw [hi] at ha
      cases ha
      rcases h with h | h
      · rw [Endpoint.isIp, hi] at h
        cases h
      · exact absurd hl (Nat.not_lt.mpr h)

theorem encode_of_not_writable {e : Endpoint} (h : ¬ Writable e) :
    (ofEndpoint e).encode = .error (.domainLength (Bytes.ofText e.host).length) := by
  obtain ⟨hi, hl⟩ := not_or.mp h
  have hnone : e.ip? = none := by simpa [Endpoint.isIp] using hi
  refine encode_eq_error_iff.mpr ⟨e.host, e.port, ?_, Nat.not_le.mp hl, rfl⟩
  unfold ofEndpoint Endpoint.socket?
  rw [hnone]
  rfl

/-- What a connection is answered with before there is one: zeros, in the family of `e`. -/
def unbound (e : Endpoint) : Address :=
  match e.ip? with
  | some (.v6 _) => .unspecified6
  | _ => .unspecified4

theorem exists_encode_unbound (e : Endpoint) : ∃ b, (unbound e).encode = .ok b := by
  unfold unbound
  split <;> exact ⟨_, rfl⟩

theorem connectReply_eq (e : Endpoint) : Negotiation.connectReply (ofEndpoint e).kind =
    encodeReply ReplyCode.succeeded (unbound e) := by
  unfold Negotiation.connectReply unbound ofEndpoint Endpoint.socket?
  match e.ip? with
  | some (.v6 _) => rfl
  | some (.v4 _) => rfl
  | none => rfl

theorem ofEndpoint_toEndpoint (e : Endpoint) :
    ofEndpoint (ofEndpoint e).toEndpoint = ofEndpoint e := by
  rw [Endpoint.toEndpoint_ofEndpoint]
  match he : e.ip? with
  | none => rfl
  | some x =>
    dsimp only
    unfold ofEndpoint Endpoint.socket?
    rw [Endpoint.ip?_of_render, he]
    rfl

end Address

namespace Negotiation

variable {m m' : Negotiation} {relay : Except IoError Ip.Socket}

/-- What the caller of a negotiation does: it answers a registration, having stored the
destination. -/
def settle (a : Admission) : Exchange Admission :=
  match a.intent with
  | .register _ => Exchange.send (registrationReply true) >>= fun _ => pure a
  | _ => pure a

/-- The front end's side of a channel. -/
def host (relay : Except IoError Ip.Socket) (m : Negotiation) : Exchange Admission :=
  m.converse relay [] >>= settle

/-- A negotiation that has not been refused or come to its end waits for the next message. -/
theorem advance_nil (h : m.stage = .greeting ∨ m.stage = .password ∨ m.stage = .request) :
    (m.advance []).outcome = .needMore := by
  unfold advance
  rcases h with h | h | h <;> rw [h] <;> rfl

/-- A turn that leaves nothing of what has arrived was not possible any earlier. -/
theorem needMore_of_rest {s t : Bytes} (hr : (m.advance (s ++ t)).rest = []) (ht : t ≠ []) :
    (m.advance s).outcome = .needMore := by
  refine Decidable.byContradiction fun hw => ?_
  rw [m.advance_append t hw] at hr
  exact ht (List.append_eq_nil_iff.mp hr).2

theorem stageAfterGreeting_of_requires (h : m.requiresPassword = true) :
    m.stageAfterGreeting = .password := if_pos h

theorem stageAfterGreeting_of_free (h : m.requiresPassword = false) :
    m.stageAfterGreeting = .request := if_neg (by simp [h])

theorem converse_of_needMore {s : Bytes} (h : (m.advance s).outcome = .needMore) :
    m.converse relay s = Exchange.read longestIncomplete >>= fun more =>
      if more = [] then Exchange.fail (.protocol (.closedDuring m.stage.name))
      else m.converse relay (s ++ more) := by
  rw [converse_eq, h]

theorem sends_converse {s : Bytes} (h : (m.advance s).outcome = .needMore)
    (g : Admission → Exchange β) :
    Sends (m.converse relay s >>= g : Exchange β) [] (m.converse relay s >>= g : Exchange β) := by
  rw [converse_of_needMore h]
  exact .read

/-- A message is heard to its end, in whatever pieces it comes. -/
theorem hears_converse {s t : Bytes} (hr : (m.advance (s ++ t)).rest = [])
    (g : Admission → Exchange β) :
    Hears (m.converse relay s >>= g : Exchange β) t (m.converse relay (s ++ t) >>= g : Exchange β)
      [] := by
  induction hk : t.length using Nat.strongRecOn generalizing s t with
  | ind k ih =>
    subst hk
    by_cases ht : t = []
    · rw [ht, List.append_nil]
      exact .all
    · -- What has come so far is no whole message, or it would have left the rest of it behind.
      rw [converse_of_needMore (needMore_of_rest hr ht)]
      refine .read (by decide) ht fun n hn _ hle => ?_
      have hjoin : s ++ t.take n ++ t.drop n = s ++ t := by
        rw [List.append_assoc, List.take_append_drop]
      have hlt : (t.drop n).length < t.length := by
        rw [List.length_drop]
        omega
      have hne : t.take n ≠ [] := by
        intro he
        rcases List.take_eq_nil_iff.mp he with h | h
        · exact absurd h (Nat.ne_of_gt hn)
        · exact ht h
      have hgo := ih _ hlt (s := s ++ t.take n) (by rw [hjoin]; exact hr) rfl
      rw [hjoin] at hgo
      show Hears ((if t.take n = [] then _ else _ : Exchange Admission) >>= g : Exchange β) _ _ _
      rw [if_neg hne]
      exact hgo

variable {P : Except Failure α → Except Failure β → Prop} {g : Admission → Exchange β}

theorem converse_of_reply {s message : Bytes} (h : m.advance s = ⟨.reply message, m', []⟩) :
    (m.converse relay s >>= g : Exchange β) =
      Exchange.send message >>= fun _ => m'.converse relay [] >>= g := by
  rw [converse_eq, h, bind_assoc]

theorem converse_of_reject {s message : Bytes} {f : Fault}
    (h : m.advance s = ⟨.reject message f, m', []⟩) :
    (m.converse relay s >>= g : Exchange β) =
      Exchange.send message >>= fun _ => Exchange.fail (.socks f) := by
  rw [converse_eq, h, bind_assoc]
  rfl

/-- A message that is one whole turn, and the answer to it. After that the front end waits or is
done; `left` is what the requester has not read of the answer. -/
theorem comes_of_turn {message answer left : Bytes} {c : Exchange α} {h : Unit → Exchange β}
    {d : Dialogue (Except Failure α)} (hr : (m.advance message).rest = [])
    (hb : (m.converse relay message >>= g : Exchange β) = Exchange.send answer >>= h)
    (hc : Sends c [] c) (hq : Sends (h ()) [] (h ())) (ha : Hears c answer d left)
    (hp : Comes P ⟨d, h (), left, []⟩) :
    Comes P ⟨(Exchange.send message >>= fun _ => c : Exchange α),
      (m.converse relay [] >>= g : Exchange β), [], []⟩ := by
  have hhear : Hears (m.converse relay [] >>= g : Exchange β) message
      (m.converse relay message >>= g : Exchange β) [] := hears_converse (s := []) hr g
  rw [hb] at hhear
  exact Comes.send (Exchange.sends_send message hc) hhear
    (Comes.answer (Exchange.sends_send answer hq) ha hp)

/-- One that is replied to, so that the negotiation goes on. -/
theorem comes_of_reply {message answer : Bytes} {n : Nat} {f : Bytes → Exchange α}
    (hturn : m.advance message = ⟨.reply answer, m', []⟩) (hl : answer.length = n) (hn : n ≠ 0)
    (hw : (m'.advance []).outcome = .needMore)
    (h : Comes P ⟨f answer, (m'.converse relay [] >>= g : Exchange β), [], []⟩) :
    Comes P ⟨(Exchange.send message >>= fun _ => Exchange.readExact n >>= f : Exchange α),
      (m.converse relay [] >>= g : Exchange β), [], []⟩ :=
  comes_of_turn (by rw [hturn]) (converse_of_reply hturn) (Exchange.sends_readExact hn f)
    (sends_converse hw g) (Exchange.hears_answer hl) h

/-- One that is refused, and after which the requester is done, too. -/
theorem comes_of_reject {message answer : Bytes} {n : Nat} {f : Bytes → Exchange α} {fault : Fault}
    {x : Except Failure α} (hturn : m.advance message = ⟨.reject answer fault, m', []⟩)
    (hl : answer.length = n) (hn : n ≠ 0) (hf : f answer = .done x)
    (hp : P x (.error (.socks fault))) :
    Comes P ⟨(Exchange.send message >>= fun _ => Exchange.readExact n >>= f : Exchange α),
      (m.converse relay [] >>= g : Exchange β), [], []⟩ := by
  refine comes_of_turn (by rw [hturn]) (converse_of_reject hturn) (Exchange.sends_readExact hn f)
    .done (Exchange.hears_answer hl) ?_
  rw [hf]
  exact .finished hp

/-- A front end whose requester has gone away finds out at the end of input. -/
theorem comes_of_gone (h : (m.advance []).outcome = .needMore) {x : Except Failure α}
    (hp : P x (.error (.protocol (.closedDuring m.stage.name)))) :
    Comes P ⟨.done x, (m.converse relay [] >>= g : Exchange β), [], []⟩ := by
  rw [converse_of_needMore h]
  exact Comes.atEnd (.finished hp)

end Negotiation

namespace Requester

open Negotiation

variable {P : Except Failure α → Except Failure β → Prop} {g : Admission → Exchange β}
  {m : Negotiation} {relay : Except IoError Ip.Socket} {b : Backend} {f : Unit → Exchange α}

/-- What is agreed on first: no password is wanted, or the one that is wanted is there and fits. -/
def Agrees (b : Backend) (m : Negotiation) : Prop :=
  m.requiresPassword = false ∨ ∃ c, b.credentials = some c ∧ m.credentials = some c ∧ fits c = true

/-- A front end that can agree with the greeting has it answered, and goes on. -/
theorem comes_of_greeting (hs : m.stage = .greeting)
    (hno : ¬ (m.requiresPassword = true ∧ b.credentials = none))
    (h : Comes P ⟨(if m.requiresPassword then prove b >>= f else f () : Exchange α),
      (({ m with stage := m.stageAfterGreeting } : Negotiation).converse relay [] >>= g :
        Exchange β), [], []⟩) :
    Comes P ⟨(agree b >>= f : Exchange α), (m.converse relay [] >>= g : Exchange β), [], []⟩ := by
  have hturn := advance_greeting hs b []
  rw [List.append_nil, if_neg hno] at hturn
  have hnext : m.stageAfterGreeting = .password ∨ m.stageAfterGreeting = .request := by
    unfold stageAfterGreeting
    split
    · exact .inl rfl
    · exact .inr rfl
  unfold agree
  simp only [bind_assoc]
  refine comes_of_reply hturn rfl (by decide) (advance_nil (.inr hnext)) ?_
  unfold wantedMethod
  cases hm : m.requiresPassword with
  | true =>
    rw [hm] at h
    exact h
  | false =>
    rw [hm] at h
    exact h

theorem prove_eq {c : Credentials} (hb : b.credentials = some c) (hf : fits c = true) :
    prove b = (Exchange.send (passwordMessage c) >>= fun _ => Exchange.readExact 2 >>= fun answer =>
      match answer with
      | [_, 0] => pure ()
      | _ => Exchange.fail (.authRejected b.toText) : Exchange Unit) := by
  unfold prove
  rw [hb]
  dsimp only
  rw [hf]
  rfl

theorem comes_of_proved (hs : m.stage = .password) {c : Credentials} (hb : b.credentials = some c)
    (hf : fits c = true) (hc : m.credentials = some c)
    (h : Comes P ⟨f (), (({ m with stage := .request, authenticated := true } :
      Negotiation).converse relay [] >>= g : Exchange β), [], []⟩) :
    Comes P ⟨(prove b >>= f : Exchange α), (m.converse relay [] >>= g : Exchange β), [], []⟩ := by
  have hturn := advance_password hs hf []
  rw [List.append_nil, if_pos hc] at hturn
  rw [prove_eq hb hf]
  simp only [bind_assoc]
  exact comes_of_reply hturn rfl (by decide) (advance_nil (.inr (.inr rfl))) h

/-- Whoever has agreed is waited for, as somebody who has proved itself if a password was wanted. -/
theorem comes_of_agreed (hs : m.stage = .greeting) (hm : m.authenticated = false)
    (ha : Agrees b m)
    (h : Comes P ⟨f (), (({ m with stage := .request, authenticated := m.requiresPassword } :
      Negotiation).converse relay [] >>= g : Exchange β), [], []⟩) :
    Comes P ⟨(agree b >>= f : Exchange α), (m.converse relay [] >>= g : Exchange β), [], []⟩ := by
  rcases ha with hfree | ⟨c, hb, hc, hf⟩
  · refine comes_of_greeting hs (by simp [hfree]) ?_
    rw [hfree, ← hm] at h
    rw [stageAfterGreeting_of_free hfree, hfree]
    exact h
  · refine comes_of_greeting hs (by simp [hb]) ?_
    cases hp : m.requiresPassword with
    | true =>
      rw [hp] at h
      rw [stageAfterGreeting_of_requires hp]
      exact comes_of_proved rfl hb hf hc h
    | false =>
      rw [hp, ← hm] at h
      rw [stageAfterGreeting_of_free hp]
      exact h

section Refusal

variable {c : Credentials}

theorem comes_of_none (hs : m.stage = .greeting) (hm : m.requiresPassword = true)
    (hb : b.credentials = none)
    (hp : P (.error (.authRejected b.toText)) (.error (.socks .noMethod))) :
    Comes P ⟨(agree b >>= f : Exchange α), (m.converse relay [] >>= g : Exchange β), [], []⟩ := by
  have hturn := advance_greeting hs b []
  rw [List.append_nil, if_pos ⟨hm, hb⟩] at hturn
  unfold agree
  simp only [bind_assoc]
  exact comes_of_reject hturn rfl (by decide) rfl hp

theorem comes_of_other (hs : m.stage = .greeting) (hm : m.requiresPassword = true)
    (hb : b.credentials = some c) (hf : fits c = true) (hc : m.credentials ≠ some c)
    (hp : P (.error (.authRejected b.toText)) (.error (.socks (.authentication c.username)))) :
    Comes P ⟨(agree b >>= f : Exchange α), (m.converse relay [] >>= g : Exchange β), [], []⟩ := by
  refine comes_of_greeting hs (by simp [hb]) ?_
  have hturn := advance_password (m := { m with stage := .password }) rfl hf []
  rw [List.append_nil, if_neg hc] at hturn
  rw [if_pos hm, stageAfterGreeting_of_requires hm, prove_eq hb hf]
  simp only [bind_assoc]
  exact comes_of_reject hturn rfl (by decide) rfl hp

theorem comes_of_long (hs : m.stage = .greeting) (hm : m.requiresPassword = true)
    (hb : b.credentials = some c) (hf : fits c = false)
    (hp : P (.error (.config (.longCredentials b.toText)))
      (.error (.protocol (.closedDuring "AwaitAuth")))) :
    Comes P ⟨(agree b >>= f : Exchange α), (m.converse relay [] >>= g : Exchange β), [], []⟩ := by
  refine comes_of_greeting hs (by simp [hb]) ?_
  have hprove : (prove b >>= f : Exchange α) =
      (Exchange.fail (.config (.longCredentials b.toText)) : Exchange α) := by
    unfold prove
    rw [hb]
    dsimp only
    rw [hf]
    rfl
  rw [if_pos hm, stageAfterGreeting_of_requires hm, hprove]
  exact comes_of_gone (advance_nil (.inr (.inl rfl))) hp

end Refusal

/-- What a requester does behind its request. -/
def awaitGrant (b : Backend) : Exchange Address :=
  Exchange.readExact 3 >>= fun answer =>
    match answer with
    | [version, code, _] =>
      if version ≠ protocolVersion then Exchange.fail (.socks (.version protocolVersion version))
      else if code ≠ ReplyCode.succeeded then Exchange.fail (.rejected b.toText code)
      else Address.receive
    | _ => Exchange.failIo .earlyEof

section Request

variable {target : Endpoint} {bound : Address} {address : Bytes} {command code : UInt8}
  {k : Address → Exchange α}

theorem request_eq (he : (Address.ofEndpoint target).encode = .ok address) :
    request b command target = agree b >>= fun _ =>
      Exchange.send ([protocolVersion, command, 0] ++ address) >>= fun _ => awaitGrant b := by
  unfold request
  rw [he]
  rfl

theorem request_of_error {e : Fault} (he : (Address.ofEndpoint target).encode = .error e) :
    request b command target = agree b >>= fun _ => Exchange.fail (.socks e) := by
  unfold request
  rw [he]

theorem sends_awaitGrant :
    Sends (awaitGrant b >>= k : Exchange α) [] (awaitGrant b >>= k : Exchange α) := by
  unfold awaitGrant
  rw [bind_assoc]
  exact Exchange.sends_readExact (by decide) _

theorem hears_grant (he : bound.encode = .ok address) :
    Hears (awaitGrant b >>= k : Exchange α) (encodeReply ReplyCode.succeeded bound)
      (k bound) [] := by
  unfold awaitGrant encodeReply Address.encodeOrZero
  rw [bind_assoc, he]
  refine Exchange.hears_readExact (m := [protocolVersion, ReplyCode.succeeded, 0]) rfl ?_
  have h := Address.hears_receive he (.all : Hears (k bound) [] (k bound) [])
  rw [List.append_nil] at h
  exact h

/-- Of a refusal only the code is read. -/
theorem hears_refusal (hc : code ≠ ReplyCode.succeeded) :
    Hears (awaitGrant b >>= k : Exchange α) (encodeReply code bound)
      (.done (.error (.rejected b.toText code))) bound.encodeOrZero := by
  unfold awaitGrant encodeReply
  rw [bind_assoc]
  refine Exchange.hears_readExact (m := [protocolVersion, code, 0]) rfl ?_
  dsimp only
  rw [if_neg (by simp), if_pos hc]
  exact .deaf

theorem readRequest_encode {a : Address} (he : a.encode = .ok address) :
    readRequest ([protocolVersion, command, 0] ++ address) =
      .ok (some (⟨command, a.kind, a⟩, [])) := by
  obtain ⟨body, rfl⟩ := Address.exists_of_encode he
  exact readRequest_eq_some_iff.mpr ⟨0, body, by simp, Address.parse_encode he⟩

theorem advance_request (command : UInt8) {a : Address} (hs : m.stage = .request)
    (he : a.encode = .ok address) :
    m.advance ([protocolVersion, command, 0] ++ address) =
      if command = Command.connect then
        ⟨.connect (connectReply a.kind) a.toEndpoint, { m with stage := .established }, []⟩
      else if command = Command.associate then
        ⟨.associate a, { m with stage := .established }, []⟩
      else if command = Command.register ∧ m.registrations then
        ⟨.register a.toEndpoint, { m with stage := .established }, []⟩
      else
        ⟨.reject (encodeReply ReplyCode.commandNotSupported (.zeroed a.kind)) (.command command),
          m.close, []⟩ := by
  have hadv : ∀ s, m.advance s = m.onRequest s := fun s => by simp only [advance, hs]
  rw [hadv, onRequest, readRequest_encode he]

variable {Q : Except Failure α → Except Failure Admission → Prop}

/-- A connection is granted in the turn that asks for it, -/
theorem comes_of_connect (hs : m.stage = .request)
    (he : (Address.ofEndpoint target).encode = .ok address)
    (h : Comes Q ⟨k (Address.unbound target),
      (pure ⟨.connect (Address.ofEndpoint target).toEndpoint, [], m.authenticated⟩ :
        Exchange Admission), [], []⟩) :
    Comes Q ⟨(Exchange.send ([protocolVersion, Command.connect, 0] ++ address) >>= fun _ =>
      awaitGrant b >>= k : Exchange α), host relay m, [], []⟩ := by
  have hturn := advance_request Command.connect hs he
  rw [if_pos rfl, Address.connectReply_eq] at hturn
  obtain ⟨x, hx⟩ := Address.exists_encode_unbound target
  refine comes_of_turn (by rw [hturn]) (h := fun _ => pure ⟨.connect _, [], m.authenticated⟩)
    ?_ sends_awaitGrant .done (hears_grant hx) h
  rw [converse_eq, hturn, bind_assoc]
  rfl

/-- and a registration by the caller, where there are any. -/
theorem comes_of_register (hs : m.stage = .request)
    (he : (Address.ofEndpoint target).encode = .ok address) (hr : m.registrations = true)
    (h : Comes Q ⟨k .unspecified4,
      (pure ⟨.register (Address.ofEndpoint target).toEndpoint, [], m.authenticated⟩ :
        Exchange Admission), [], []⟩) :
    Comes Q ⟨(Exchange.send ([protocolVersion, Command.register, 0] ++ address) >>= fun _ =>
      awaitGrant b >>= k : Exchange α), host relay m, [], []⟩ := by
  have hturn := advance_request Command.register hs he
  rw [if_neg (by decide), if_neg (by decide), if_pos ⟨rfl, hr⟩] at hturn
  have hgrant := hears_grant (b := b) (k := k)
    (show Address.unspecified4.encode = .ok [1, 0, 0, 0, 0, 0, 0] from rfl)
  refine comes_of_turn (by rw [hturn]) (h := fun _ => pure ⟨.register _, [], m.authenticated⟩)
    ?_ sends_awaitGrant .done hgrant h
  rw [converse_eq, hturn]
  rfl

theorem comes_of_unsupported (hs : m.stage = .request)
    (he : (Address.ofEndpoint target).encode = .ok address) (hr : m.registrations = false)
    (hq : Q (.error (.rejected b.toText ReplyCode.commandNotSupported))
      (.error (.socks (.command Command.register)))) :
    Comes Q ⟨(Exchange.send ([protocolVersion, Command.register, 0] ++ address) >>= fun _ =>
      awaitGrant b >>= k : Exchange α), host relay m, [], []⟩ := by
  have hturn := advance_request Command.register hs he
  rw [if_neg (by decide), if_neg (by decide), if_neg (by simp [hr])] at hturn
  have hcode : ReplyCode.commandNotSupported ≠ ReplyCode.succeeded := by decide
  refine comes_of_turn (by rw [hturn]) (converse_of_reject hturn) sends_awaitGrant .done
    (hears_refusal hcode) ?_
  exact .finished hq

end Request

/-- Where the two part before anything has been asked for, and with which failures. -/
inductive Parts (b : Backend) (m : Negotiation) (target : Endpoint) : Failure → Failure → Prop
  | unarmed : m.requiresPassword = true → b.credentials = none →
      Parts b m target (.authRejected b.toText) (.socks .noMethod)
  | unknown {c : Credentials} : m.requiresPassword = true → b.credentials = some c →
      fits c = true → m.credentials ≠ some c →
      Parts b m target (.authRejected b.toText) (.socks (.authentication c.username))
  | long {c : Credentials} : m.requiresPassword = true → b.credentials = some c →
      fits c = false →
      Parts b m target (.config (.longCredentials b.toText))
        (.protocol (.closedDuring Stage.password.name))
  | unwritable : Agrees b m → ¬ Address.Writable target →
      Parts b m target (.socks (.domainLength (Bytes.ofText target.host).length))
        (.protocol (.closedDuring Stage.request.name))

section Accord

variable {target : Endpoint} {x y : Failure} {command : UInt8} {k : Address → Exchange α}

/-- They either part or get as far as the request. -/
theorem agrees_or_parts (b : Backend) (m : Negotiation) (target : Endpoint) :
    Agrees b m ∧ Address.Writable target ∨ ∃ x y, Parts b m target x y := by
  have hagreed : Agrees b m →
      Agrees b m ∧ Address.Writable target ∨ ∃ x y, Parts b m target x y := by
    intro ha
    by_cases hw : Address.Writable target
    · exact .inl ⟨ha, hw⟩
    · exact .inr ⟨_, _, .unwritable ha hw⟩
  match hm : m.requiresPassword, hb : b.credentials with
  | false, _ => exact hagreed (.inl hm)
  | true, none => exact .inr ⟨_, _, .unarmed hm hb⟩
  | true, some c =>
    match hf : fits c with
    | false => exact .inr ⟨_, _, .long hm hb hf⟩
    | true =>
      by_cases hc : m.credentials = some c
      · exact hagreed (.inr ⟨c, hb, hc, hf⟩)
      · exact .inr ⟨_, _, .unknown hm hb hf hc⟩

theorem connect_eq (b : Backend) (target : Endpoint) :
    connect b target = request b Command.connect target >>= pure :=
  (bind_pure _).symm

theorem register_eq (b : Backend) (target : Endpoint) :
    register b target = request b Command.register target >>= fun _ => pure () := rfl

theorem ends_of_parts (hs : m.stage = .greeting) (hm : m.authenticated = false)
    (h : Parts b m target x y) :
    Ends ⟨(request b command target >>= k : Exchange α), host relay m, [], []⟩
      (.error x) (.error y) := by
  refine Comes.ends ?_
  cases h with
  | unarmed hr hb =>
    unfold request
    rw [bind_assoc]
    exact comes_of_none hs hr hb ⟨rfl, rfl⟩
  | unknown hr hb hf hc =>
    unfold request
    rw [bind_assoc]
    exact comes_of_other hs hr hb hf hc ⟨rfl, rfl⟩
  | long hr hb hf =>
    unfold request
    rw [bind_assoc]
    exact comes_of_long hs hr hb hf ⟨rfl, rfl⟩
  | unwritable ha hw =>
    rw [request_of_error (Address.encode_of_not_writable hw), bind_assoc]
    exact comes_of_agreed hs hm ha (comes_of_gone (advance_nil (.inr (.inr rfl))) ⟨rfl, rfl⟩)

section Agreed

variable (hs : m.stage = .greeting) (hm : m.authenticated = false) (ha : Agrees b m)
  (hw : Address.Writable target)

include hs hm ha hw

theorem ends_connect : Ends ⟨connect b target, host relay m, [], []⟩
    (.ok (Address.unbound target))
    (.ok ⟨.connect (Address.ofEndpoint target).toEndpoint, [], m.requiresPassword⟩) := by
  obtain ⟨address, he⟩ := Address.exists_encode_of_writable hw
  refine Comes.ends ?_
  rw [connect_eq, request_eq he]
  simp only [bind_assoc]
  exact comes_of_agreed hs hm ha (comes_of_connect rfl he (.finished ⟨rfl, rfl⟩))

theorem ends_register (hr : m.registrations = true) :
    Ends ⟨register b target, host relay m, [], []⟩ (.ok ())
      (.ok ⟨.register (Address.ofEndpoint target).toEndpoint, [], m.requiresPassword⟩) := by
  obtain ⟨address, he⟩ := Address.exists_encode_of_writable hw
  refine Comes.ends ?_
  rw [register_eq, request_eq he]
  simp only [bind_assoc]
  exact comes_of_agreed hs hm ha (comes_of_register rfl he hr (.finished ⟨rfl, rfl⟩))

theorem ends_unsupported (hr : m.registrations = false) :
    Ends ⟨register b target, host relay m, [], []⟩
      (.error (.rejected b.toText ReplyCode.commandNotSupported))
      (.error (.socks (.command Command.register))) := by
  obtain ⟨address, he⟩ := Address.exists_encode_of_writable hw
  refine Comes.ends ?_
  rw [register_eq, request_eq he]
  simp only [bind_assoc]
  exact comes_of_agreed hs hm ha (comes_of_unsupported rfl he hr ⟨rfl, rfl⟩)

end Agreed

/-- **A requester and a front end agree.** Whatever either of them has been given, and however the
bytes go over, both come to be done: with the intent that was asked for where they agree and the
target can be written, and each with its own failure otherwise. -/
theorem both_ends_agree (credentials : Option Credentials) (trusted registrations : Bool)
    (relay : Except IoError Ip.Socket) (b : Backend) (target : Endpoint) :
    let m : Negotiation := { credentials, trusted, registrations }
    let d := (Address.ofEndpoint target).toEndpoint
    Address.ofEndpoint d = Address.ofEndpoint target ∧
      (Agrees b m ∧ Address.Writable target →
        Ends ⟨connect b target, host relay m, [], []⟩ (.ok (Address.unbound target))
          (.ok ⟨.connect d, [], m.requiresPassword⟩) ∧
        (registrations = true →
          Ends ⟨register b target, host relay m, [], []⟩ (.ok ())
            (.ok ⟨.register d, [], m.requiresPassword⟩)) ∧
        (registrations = false →
          Ends ⟨register b target, host relay m, [], []⟩
            (.error (.rejected b.toText ReplyCode.commandNotSupported))
            (.error (.socks (.command Command.register))))) ∧
      (∀ x y, Parts b m target x y →
        Ends ⟨connect b target, host relay m, [], []⟩ (.error x) (.error y) ∧
        Ends ⟨register b target, host relay m, [], []⟩ (.error x) (.error y)) ∧
      (Agrees b m ∧ Address.Writable target ∨ ∃ x y, Parts b m target x y) := by
  intro m d
  refine ⟨Address.ofEndpoint_toEndpoint target, fun ⟨ha, hw⟩ => ⟨?_, fun hr => ?_, fun hr => ?_⟩,
    fun x y h => ?_, agrees_or_parts b m target⟩
  · exact ends_connect rfl rfl ha hw
  · exact ends_register rfl rfl ha hw hr
  · exact ends_unsupported rfl rfl ha hw hr
  · rw [connect_eq, register_eq]
    exact ⟨ends_of_parts rfl rfl h, ends_of_parts rfl rfl h⟩

/-- A registration with a password, and the same one after a slip of the pen. -/
theorem registers_with_password :
    Ends ⟨register ⟨⟨"relay.test", 1080⟩, some ⟨"bob", "right"⟩⟩ ⟨"example.test", 443⟩,
        host (.error .earlyEof) { credentials := some ⟨"bob", "right"⟩, registrations := true },
        [], []⟩
      (.ok ()) (.ok ⟨.register ⟨"example.test", 443⟩, [], true⟩) ∧
    Ends ⟨register ⟨⟨"relay.test", 1080⟩, some ⟨"bob", "wrong"⟩⟩ ⟨"example.test", 443⟩,
        host (.error .earlyEof) { credentials := some ⟨"bob", "right"⟩, registrations := true },
        [], []⟩
      (.error (.authRejected "relay.test:1080")) (.error (.socks (.authentication "bob"))) := by
  constructor
  · have h := both_ends_agree (some ⟨"bob", "right"⟩) false true (.error .earlyEof)
      ⟨⟨"relay.test", 1080⟩, some ⟨"bob", "right"⟩⟩ ⟨"example.test", 443⟩
    have hw : Address.Writable ⟨"example.test", 443⟩ := .inr (by decide)
    have hd : (Address.ofEndpoint ⟨"example.test", 443⟩).toEndpoint = ⟨"example.test", 443⟩ := by
      decide
    have hf : fits ⟨"bob", "right"⟩ = true := by decide
    have hr := (h.2.1 ⟨.inr ⟨_, rfl, rfl, hf⟩, hw⟩).2.1 rfl
    rw [hd] at hr
    exact hr
  · have h := both_ends_agree (some ⟨"bob", "right"⟩) false true (.error .earlyEof)
      ⟨⟨"relay.test", 1080⟩, some ⟨"bob", "wrong"⟩⟩ ⟨"example.test", 443⟩
    exact (h.2.2.1 _ _ (.unknown rfl rfl (by decide) (by decide))).2

end Accord

end Requester

end SocksChain.Socks
