import SocksChain.Proofs.Channel.Saying
import SocksChain.Proofs.Socks.Reception
import SocksChain.Socks.Requester

/-!
Both ends of a registration. Whoever registers a destination and is told that it has been done, has
said nothing that a front end could take for anything but this registration; and no front end says
as much before it has taken it.
-/

namespace SocksChain.Socks

open Channel Dialogue

/-- What is written is a whole address, and read as it was. -/
theorem Address.parse_encode {a : Address} {b : Bytes} (h : a.encode = .ok b) :
    parse b = .ok (some (a, [])) := by
  unfold encode at h
  split at h
  · rename_i x p
    cases h
    have hp := Bytes.word_ofWord p
    simp only [Ip.V4.octets, Bytes.ofWord, List.cons_append, List.nil_append, parse, parseV4, hp,
      if_true]
  · rename_i x p
    cases h
    have hk : AddressType.v6 ≠ AddressType.v4 := by decide
    simp only [Ip.V6.octets, Ip.V6.groups, List.flatMap_cons, List.flatMap_nil, Bytes.ofWord,
      List.cons_append, List.nil_append, parse, parseV6, hk, Bytes.word_ofWord, if_true, if_false]
  · rename_i name p
    dsimp only at h
    split at h
    · cases h
    · rename_i hl
      cases h
      have hk4 : AddressType.domain ≠ AddressType.v4 := by decide
      have hk6 : AddressType.domain ≠ AddressType.v6 := by decide
      have hn : (Bytes.ofText name).length = (UInt8.ofNat (Bytes.ofText name).length).toNat :=
        (UInt8.toNat_ofNat_of_lt' (Nat.lt_succ_of_le (Nat.not_lt.1 hl))).symm
      simp only [List.cons_append, parse, hk4, hk6, if_true, if_false, parseDomain,
        List.take_left' hn, List.drop_left' hn, Bytes.ofWord, Bytes.toText?_ofText,
        Bytes.word_ofWord]

namespace Requester

/-- What a requester hears and says until its backend lets it go on. -/
inductive Agreed (b : Backend) : Bytes → Bytes → Prop
  | freely : Agreed b [protocolVersion, Method.none] (greeting b)
  | proved {c : Credentials} {version : UInt8} : b.credentials = some c → fits c = true →
      Agreed b [protocolVersion, Method.password, version, 0] (greeting b ++ passwordMessage c)

variable {b : Backend} {heard said : Bytes}

theorem exists_of_talks_prove (h : Talks (prove b) heard said (.done (.ok ()))) :
    ∃ c version, b.credentials = some c ∧ fits c = true ∧ heard = [version, 0] ∧
      said = passwordMessage c := by
  unfold prove at h
  split at h
  · exact absurd h Exchange.not_talks_fail
  · rename_i c hc
    dsimp only at h
    split at h
    · obtain ⟨_, _, _, _, _, hf, -⟩ := Exchange.exists_of_talks_bind h
      exact absurd hf Exchange.not_talks_fail
    · rename_i hfits
      obtain ⟨answer, _, _, hn, rfl, rfl⟩ := Exchange.exists_of_talks_ask h
      split at hn
      · rename_i version
        obtain ⟨rfl, rfl, -⟩ := talks_done_iff.mp hn
        exact ⟨c, version, hc, by simpa using hfits, rfl, List.append_nil _⟩
      · exact absurd hn Exchange.not_talks_fail

theorem agreed_of_talks (h : Talks (agree b) heard said (.done (.ok ()))) :
    Agreed b heard said := by
  obtain ⟨answer, h₁, s₁, hn, rfl, rfl⟩ := Exchange.exists_of_talks_ask h
  split at hn
  · rename_i version method
    split at hn
    · exact absurd hn Exchange.not_talks_fail
    · rename_i hv
      obtain rfl := Decidable.not_not.1 hv
      split at hn
      · rename_i hm
        obtain ⟨rfl, rfl, -⟩ := talks_done_iff.mp hn
        rw [hm, List.append_nil, List.append_nil]
        exact .freely
      · split at hn
        · rename_i hm
          obtain ⟨c, version, hc, hf, rfl, rfl⟩ := exists_of_talks_prove hn
          rw [hm]
          exact .proved hc hf
        · exact absurd hn Exchange.not_talks_fail
  · exact absurd hn Exchange.not_talks_fail

/-- Whoever is told that its request was granted has asked for it behind an agreement, and was told
so behind the agreement. -/
theorem exists_of_talks_request {command : UInt8} {target : Endpoint} {bound : Address}
    (h : Talks (request b command target) heard said (.done (.ok bound))) :
    ∃ agreed asked address reserved tail, Agreed b agreed asked ∧
      (Address.ofEndpoint target).encode = .ok address ∧
      heard = agreed ++ protocolVersion :: ReplyCode.succeeded :: reserved :: tail ∧
      (asked ++ protocolVersion :: command :: 0 :: address) <+: said := by
  obtain ⟨_, h₁, h₂, s₁, s₂, ha, hn, rfl, rfl⟩ := Exchange.exists_of_talks_bind h
  split at hn
  · exact absurd hn Exchange.not_talks_fail
  · rename_i address he
    obtain ⟨answer, h₃, s₃, hr, rfl, rfl⟩ := Exchange.exists_of_talks_ask hn
    split at hr
    · rename_i version code reserved
      split at hr
      · exact absurd hr Exchange.not_talks_fail
      · rename_i hv
        obtain rfl := Decidable.not_not.1 hv
        split at hr
        · exact absurd hr Exchange.not_talks_fail
        · rename_i hk
          obtain rfl := Decidable.not_not.1 hk
          refine ⟨h₁, s₁, address, reserved, h₃, agreed_of_talks ha, he, rfl, ?_⟩
          exact (List.prefix_append_right_inj _).2 (List.prefix_append _ _)
    · exact absurd hr Exchange.not_talks_fail

theorem exists_greeting (b : Backend) : ∃ (n : UInt8) (methods : Bytes),
    greeting b = protocolVersion :: n :: methods ∧ 1 ≤ n.toNat ∧ n.toNat = methods.length ∧
      methods.contains Method.none = true ∧
      (methods.contains Method.password = true ↔ b.credentials ≠ none) := by
  unfold greeting
  cases b.credentials with
  | some c => exact ⟨2, [Method.none, Method.password], rfl, by decide, rfl, rfl, by simp⟩
  | none =>
    exact ⟨1, [Method.none], rfl, by decide, rfl, rfl, by simp [Method.none, Method.password]⟩

theorem presents_passwordMessage {c : Credentials} (h : fits c = true) :
    Presents c (passwordMessage c) := by
  rw [fits, Bool.and_eq_true, decide_eq_true_eq, decide_eq_true_eq] at h
  refine ⟨UInt8.ofNat (Bytes.ofText c.username).length,
    UInt8.ofNat (Bytes.ofText c.password).length, ?_, ?_, ?_⟩
  · simp [passwordMessage]
  · exact UInt8.toNat_ofNat_of_lt' (Nat.lt_succ_of_le h.1)
  · exact UInt8.toNat_ofNat_of_lt' (Nat.lt_succ_of_le h.2)

end Requester

/-- A verdict that admits nobody but for `i`, and that says nothing with `told` in front. -/
structure Verdict.Withholds (v : Verdict) (i : Intent) (told : Bytes) : Prop where
  intent : ∀ j proved, v.result = .ok (j, proved) → j = i
  untold : ¬ told <+: v.said

namespace Verdict.Withholds

variable {v : Verdict} {i : Intent} {told x y : Bytes}

theorem not_prefix_of_ne {said : Bytes} (hl : x.length = y.length) (hx : x ≠ y) :
    ¬ x ++ told <+: y ++ said := by
  rintro ⟨t, ht⟩
  rw [List.append_assoc] at ht
  exact hx (List.append_inj_left ht hl)

theorem of_error {f : Failure} (h : v.result = .error f) (hn : ¬ told <+: v.said) :
    v.Withholds i told := by
  refine ⟨fun j proved hj => ?_, hn⟩
  rw [h] at hj
  cases hj

/-- A message in front says nothing of it either, even if what is told begins the same. -/
theorem behind (h : v.Withholds i told) (hl : x.length = y.length) :
    Verdict.Withholds { v with said := y ++ v.said } i (x ++ told) := by
  refine ⟨h.intent, fun hp => ?_⟩
  by_cases hx : x = y
  · rw [hx] at hp
    exact h.untold ((List.prefix_append_right_inj _).1 hp)
  · exact not_prefix_of_ne hl hx hp

end Verdict.Withholds

namespace Negotiation

variable {relay : Except IoError Ip.Socket} {m : Negotiation}

theorem judge_of_abort {s : Bytes} {f : Fault} (h : (m.advance s).outcome = .abort f) :
    m.judge relay s = ⟨.error (.socks f), [], (m.advance s).rest⟩ := by
  rw [judge_eq, h]

/-- A front end agrees to a method that a requester offers, unless it wants a password of one that
has none. -/
theorem advance_greeting (hs : m.stage = .greeting) (b : Backend) (t : Bytes) :
    m.advance (Requester.greeting b ++ t) =
      if m.requiresPassword = true ∧ b.credentials = none then
        ⟨.reject [protocolVersion, Method.refused] .noMethod, m.close, t⟩
      else
        ⟨.reply [protocolVersion, m.wantedMethod],
          { m with stage := m.stageAfterGreeting }, t⟩ := by
  obtain ⟨n, methods, hg, hn, hl, hnone, hpassword⟩ := Requester.exists_greeting b
  have hoffer : methods.contains m.wantedMethod = true ↔
      ¬ (m.requiresPassword = true ∧ b.credentials = none) := by
    unfold wantedMethod
    cases m.requiresPassword with
    | true => exact hpassword.trans (by simp)
    | false => exact iff_of_true hnone (by simp)
  have hadv : m.advance (Requester.greeting b ++ t) = m.onGreeting (Requester.greeting b ++ t) := by
    simp only [advance, hs]
  rw [hadv, onGreeting, readGreeting_eq_some_iff.mpr ⟨n, by rw [hg], hn, hl⟩]
  dsimp only
  by_cases hno : m.requiresPassword = true ∧ b.credentials = none
  · rw [if_pos hno, if_neg fun hc => hoffer.mp hc hno]
  · rw [if_neg hno, if_pos (hoffer.mpr hno)]

theorem advance_password (hs : m.stage = .password) {c : Credentials}
    (hf : Requester.fits c = true) (t : Bytes) :
    m.advance (Requester.passwordMessage c ++ t) =
      if m.credentials = some c then
        ⟨.reply [passwordVersion, 0], { m with stage := .request, authenticated := true }, t⟩
      else ⟨.reject [passwordVersion, 1] (.authentication c.username), m.close, t⟩ := by
  obtain ⟨n, k, hp, hn, hk⟩ := Requester.presents_passwordMessage hf
  have hadv : m.advance (Requester.passwordMessage c ++ t) =
      m.onPassword (Requester.passwordMessage c ++ t) := by
    simp only [advance, hs]
  rw [hadv, onPassword, readPassword_eq_some_iff.mpr ⟨n, k, by rw [hp], hn, hk⟩]
  simp only [Bytes.toText?_ofText]

theorem judge_greeting (hs : m.stage = .greeting) (b : Backend) (t : Bytes) :
    m.judge relay (Requester.greeting b ++ t) =
        ⟨.error (.socks .noMethod), [protocolVersion, Method.refused], t⟩ ∨
      m.judge relay (Requester.greeting b ++ t) =
        let v := ({ m with stage := m.stageAfterGreeting } : Negotiation).judge relay t
        { v with said := [protocolVersion, m.wantedMethod] ++ v.said } := by
  rw [judge_eq, advance_greeting hs]
  by_cases hno : m.requiresPassword = true ∧ b.credentials = none
  · rw [if_pos hno]
    exact .inl rfl
  · rw [if_neg hno]
    exact .inr rfl

theorem judge_password (hs : m.stage = .password) {c : Credentials} (hf : Requester.fits c = true)
    (t : Bytes) :
    m.judge relay (Requester.passwordMessage c ++ t) =
        ⟨.error (.socks (.authentication c.username)), [passwordVersion, 1], t⟩ ∨
      m.judge relay (Requester.passwordMessage c ++ t) =
        let v := ({ m with stage := .request, authenticated := true } : Negotiation).judge relay t
        { v with said := [passwordVersion, 0] ++ v.said } := by
  rw [judge_eq, advance_password hs hf]
  by_cases hc : m.credentials = some c
  · rw [if_pos hc]
    exact .inr rfl
  · rw [if_neg hc]
    exact .inl rfl

section Registrations

variable {a : Address} {address : Bytes} {reserved : UInt8} {tail more : Bytes}

/-- A front end that waits for a request takes a registration for nothing else, and says nothing
like a success before it has been stored. -/
theorem withholds_request (hs : m.stage = .request) (ha : a.encode = .ok address) :
    (m.judge relay (protocolVersion :: Command.register :: 0 :: address ++ more)).Withholds
      (.register a.toEndpoint) (protocolVersion :: ReplyCode.succeeded :: reserved :: tail) := by
  obtain ⟨kind, hq⟩ := readRequest_append (Address.parse_encode ha) Command.register 0 more
  have hadv : ∀ s, m.advance s = m.onRequest s := fun s => by simp only [advance, hs]
  rw [judge_eq, hadv, onRequest, hq]
  dsimp only
  rw [if_neg (by decide), if_neg (by decide)]
  by_cases hr : m.registrations = true
  · rw [if_pos ⟨rfl, hr⟩]
    refine ⟨fun j proved hj => ?_, fun hp => by cases List.prefix_nil.mp hp⟩
    cases hj
    rfl
  · rw [if_neg fun h => hr h.2]
    refine .of_error rfl ?_
    exact Verdict.Withholds.not_prefix_of_ne (x := [protocolVersion, ReplyCode.succeeded])
      (y := [protocolVersion, ReplyCode.commandNotSupported]) rfl (by decide)

theorem withholds_password (hs : m.stage = .password) {c : Credentials}
    (hf : Requester.fits c = true) (ha : a.encode = .ok address) (version : UInt8) :
    (m.judge relay (Requester.passwordMessage c ++
        (protocolVersion :: Command.register :: 0 :: address ++ more))).Withholds
      (.register a.toEndpoint)
      ([version, 0] ++ protocolVersion :: ReplyCode.succeeded :: reserved :: tail) := by
  rcases judge_password hs hf _ with he | he
  · rw [he]
    refine .of_error rfl ?_
    exact Verdict.Withholds.not_prefix_of_ne (x := [version, 0]) (y := [passwordVersion, 1])
      rfl (by simp)
  · rw [he]
    exact (withholds_request rfl ha).behind rfl

/-- A front end that did not expect what a requester goes on with has said something else, too. -/
theorem withholds_of_abort {t x y told : Bytes} {i : Intent} {f : Fault}
    (h : (m.advance t).outcome = .abort f) (hl : x.length = y.length) (hx : x ≠ y) :
    Verdict.Withholds { m.judge relay t with said := y ++ (m.judge relay t).said } i
      (x ++ told) := by
  rw [judge_of_abort h]
  exact .of_error rfl (Verdict.Withholds.not_prefix_of_ne hl hx)

/-- Nor does one that refuses every method, whatever it would have said otherwise. -/
theorem withholds_greeting (hs : m.stage = .greeting) {b : Backend} {t told : Bytes} {i : Intent}
    {method : UInt8} (hm : method ≠ Method.refused)
    (h : let v := ({ m with stage := m.stageAfterGreeting } : Negotiation).judge relay t
      Verdict.Withholds { v with said := [protocolVersion, m.wantedMethod] ++ v.said } i
        ([protocolVersion, method] ++ told)) :
    (m.judge relay (Requester.greeting b ++ t)).Withholds i
      ([protocolVersion, method] ++ told) := by
  rcases judge_greeting hs b t with he | he
  · rw [he]
    refine .of_error rfl ?_
    exact Verdict.Withholds.not_prefix_of_ne (x := [protocolVersion, method])
      (y := [protocolVersion, Method.refused]) rfl (by simpa using hm)
  · rw [he]
    exact h

/-- Nor does one that a requester has agreed with, whatever each of them wanted of the other. -/
theorem withholds_registration (hs : m.stage = .greeting) {b : Backend} {agreed asked : Bytes}
    (hg : Requester.Agreed b agreed asked) (ha : a.encode = .ok address) :
    (m.judge relay
      (asked ++ (protocolVersion :: Command.register :: 0 :: address ++ more))).Withholds
      (.register a.toEndpoint)
      (agreed ++ protocolVersion :: ReplyCode.succeeded :: reserved :: tail) := by
  cases hg with
  | freely =>
    have hn : Method.none ≠ Method.refused := by decide
    refine withholds_greeting hs hn ?_
    unfold wantedMethod stageAfterGreeting
    cases m.requiresPassword with
    | true =>
      exact withholds_of_abort (f := .version passwordVersion protocolVersion) rfl rfl (by decide)
    | false => exact (withholds_request rfl ha).behind rfl
  | @proved c version hc hf =>
    rw [List.append_assoc]
    have hp : Method.password ≠ Method.refused := by decide
    refine withholds_greeting hs hp ?_
    unfold wantedMethod stageAfterGreeting
    cases m.requiresPassword with
    | true => exact (withholds_password rfl hf ha version).behind rfl
    | false =>
      obtain ⟨n, k, hp, -⟩ := Requester.presents_passwordMessage hf
      rw [hp]
      exact withholds_of_abort (f := .version protocolVersion passwordVersion) rfl rfl (by decide)

end Registrations

section Talks

variable {heard said : Bytes}

/-- A turn that neither waits nor replies says what its verdict says, or the front of it. -/
theorem said_of_talks_last {buf : Bytes} {d : Dialogue (Except Failure Admission)}
    (hw : (m.advance buf).outcome ≠ .needMore)
    (hr : ∀ message, (m.advance buf).outcome ≠ .reply message)
    (h : Talks (m.converse relay buf) heard said d) (t : Bytes) :
    said <+: (m.judge relay (buf ++ t)).said := by
  rw [judge_append hw hr, judge_eq]
  rw [converse_eq] at h
  match ho : (m.advance buf).outcome with
  | .needMore => exact absurd ho hw
  | .reply message => exact absurd ho (hr message)
  | .abort f =>
    rw [ho] at h
    obtain rfl := Exchange.talks_fail h
    exact List.nil_prefix
  | .connect message destination =>
    rw [ho] at h
    dsimp only at h ⊢
    refine Exchange.prefix_of_talks_send ?_ h
    exact fun _ _ => Exchange.talks_pure
  | .associate hint =>
    rw [ho] at h
    cases relay with
    | error e =>
      dsimp only [Exchange.failIo] at h
      obtain rfl := Exchange.talks_fail h
      exact List.nil_prefix
    | ok bound =>
      dsimp only at h ⊢
      refine Exchange.prefix_of_talks_send ?_ h
      exact fun _ _ => Exchange.talks_pure
  | .register real =>
    rw [ho] at h
    obtain rfl := Exchange.talks_pure h
    exact List.nil_prefix
  | .reject message f =>
    rw [ho] at h
    dsimp only at h ⊢
    exact Exchange.prefix_of_talks_send (fun _ _ => Exchange.talks_fail) h

/-- Whatever comes behind what has been heard, what has been said stands in front of what the
verdict says. -/
theorem said_of_talks {buf : Bytes} {d : Dialogue (Except Failure Admission)}
    (h : Talks (m.converse relay buf) heard said d) (t : Bytes) :
    said <+: (m.judge relay (buf ++ (heard ++ t))).said := by
  induction m, buf using converse.induct relay generalizing heard said with
  | case2 m buf ho ih =>
    rw [converse_eq, ho] at h
    rcases Exchange.talks_bind h with ⟨rest, hr, -⟩ | ⟨more, h₁, h₂, s₁, s₂, hr, hn, rfl, rfl⟩
    · obtain rfl := Exchange.talks_read hr
      exact List.nil_prefix
    · obtain rfl := Exchange.eq_of_follows_read hr.follows
      obtain rfl := Exchange.talks_read hr
      by_cases hm : h₁ = []
      · rw [if_pos hm] at hn
        obtain rfl := Exchange.talks_fail hn
        exact List.nil_prefix
      · rw [if_neg hm] at hn
        have hp := ih h₁ hm hn
        rwa [List.append_assoc, ← List.append_assoc h₁] at hp
  | case3 m buf message ho hlt ih =>
    rw [converse_eq, ho] at h
    rw [judge_append_of_reply ho]
    rcases Exchange.talks_bind h with ⟨rest, hs, -⟩ | ⟨_, h₁, h₂, s₁, s₂, hs, hn, rfl, rfl⟩
    · exact (Exchange.talks_send hs).2.1.trans (List.prefix_append _ _)
    · obtain ⟨rfl, -, hd⟩ := Exchange.talks_send hs
      rw [hd rfl]
      exact (List.prefix_append_right_inj _).2 (ih hn)
  | case1 m buf _ ho | case4 m buf _ _ ho | case5 m buf _ ho | case6 m buf _ ho | case7 m buf _ ho
  | case8 m buf _ _ ho => exact said_of_talks_last (by simp [ho]) (by simp [ho]) h _

theorem judge_admits_append (hs : m.stage = .greeting) (hm : m.authenticated = false)
    {s r : Bytes} {i : Intent} {proved : Bool} (h : (m.judge relay s).Admits i proved r)
    (t : Bytes) : (m.judge relay (s ++ t)).Admits i proved (r ++ t) := by
  rw [judge_admits_iff hs hm] at h ⊢
  obtain ⟨hp, g, p, c, hg, hprove, hc, rfl⟩ := h
  exact ⟨hp, g, p, c, hg, hprove, hc, by rw [List.append_assoc _ r]⟩

variable {b : Backend} {real : Endpoint} {asked answered : Bytes}

/-- The verdict on whatever a requester has said that has registered `real`. -/
theorem withholds_of_talks (hs : m.stage = .greeting)
    (h : Talks (Requester.register b real) answered asked (.done (.ok ()))) :
    (m.judge relay asked).Withholds (.register (Address.ofEndpoint real).toEndpoint) answered := by
  obtain ⟨bound, h₁, h₂, s₁, s₂, hr, hn, rfl, rfl⟩ := Exchange.exists_of_talks_bind h
  obtain ⟨rfl, rfl, -⟩ := talks_done_iff.mp hn
  obtain ⟨agreed, said, address, reserved, tail, hg, ha, rfl, more, rfl⟩ :=
    Requester.exists_of_talks_request hr
  rw [List.append_nil, List.append_nil, List.append_assoc]
  exact withholds_registration hs hg ha

/-- Whoever meets a front end that has not yet said but what its negotiation says has not been told
that `real` is registered. -/
theorem not_prefix_of_talks (hs : m.stage = .greeting)
    (h : Talks (Requester.register b real) answered asked (.done (.ok ())))
    {d : Dialogue (Except Failure Admission)} (hd : Talks (m.converse relay []) heard said d)
    (hp : heard <+: asked) : ¬ answered <+: said := by
  obtain ⟨t, rfl⟩ := hp
  have hsaid := said_of_talks hd t
  exact fun ha => (withholds_of_talks hs h).untold (ha.trans hsaid)

/-- And if it has admitted anybody, it was for this registration. -/
theorem intent_of_talks (hs : m.stage = .greeting) (hm : m.authenticated = false)
    (h : Talks (Requester.register b real) answered asked (.done (.ok ()))) {a : Admission}
    (hd : Talks (m.converse relay []) heard said (.done (.ok a))) (hp : heard <+: asked) :
    a.intent = .register (Address.ofEndpoint real).toEndpoint := by
  obtain ⟨t, rfl⟩ := hp
  have ha := judge_admits_of_follows hd.follows
  rw [List.nil_append] at ha
  exact (withholds_of_talks hs h).intent _ _ (judge_admits_append hs hm ha t).1

end Talks

end Negotiation

end SocksChain.Socks
