import SocksChain.Proofs.Channel.Likeness
import SocksChain.Proofs.Socks.Accord

/-!
What a requester gives away, and when. Its name and password leave only after the backend has asked
for them, and until then nobody can tell from the channel whose they are; the target leaves only
after the backend has agreed, which may take them.
-/

namespace SocksChain.Socks

open Channel Dialogue

theorem Address.silent_receive : Exchange.Silent Address.receive := by
  have hfinish (front : Bytes) (n : Nat) : Exchange.Silent (Address.receive.finish front n) :=
    (Exchange.silent_readExact n).bind fun body => by
      split
      · exact Exchange.silent_pure _
      · exact Exchange.silent_fail _
      · exact Exchange.silent_fail _
  refine Exchange.silent_readByte.bind fun kind => ?_
  split
  · exact hfinish _ _
  · split
    · exact hfinish _ _
    · split
      · exact Exchange.silent_readByte.bind fun n => hfinish _ _
      · exact Exchange.silent_fail _

namespace Requester

variable {b : Backend} {command : UInt8} {target : Endpoint} {heard said : Bytes}

section Saying

/-- Behind a request nothing more is said. -/
theorem silent_awaitGrant (b : Backend) : Exchange.Silent (awaitGrant b) := by
  refine (Exchange.silent_readExact 3).bind fun answer => ?_
  split
  · split
    · exact Exchange.silent_fail _
    · split
      · exact Exchange.silent_fail _
      · exact Address.silent_receive
  · exact Exchange.silent_fail _

/-- What a requester may have said once it has heard so much. -/
inductive Reveals (b : Backend) (command : UInt8) (target : Endpoint) : Bytes → Bytes → Prop
  | greets {heard said : Bytes} : said <+: greeting b → Reveals b command target heard said
  | proves {c : Credentials} {heard said : Bytes} : b.credentials = some c → fits c = true →
      [protocolVersion, Method.password] <+: heard → said <+: passwordMessage c →
      Reveals b command target heard (greeting b ++ said)
  | asks {agreed asked address heard said : Bytes} : Agreed b agreed asked →
      (Address.ofEndpoint target).encode = .ok address → agreed <+: heard →
      said <+: [protocolVersion, command, 0] ++ address →
      Reveals b command target heard (asked ++ said)

theorem Agreed.reveals (h : Agreed b heard said) (more : Bytes) :
    Reveals b command target (heard ++ more) said := by
  cases h with
  | freely => exact .greets List.prefix_rfl
  | proved hc hf => exact .proves hc hf (List.prefix_append _ _) List.prefix_rfl

/-- Only a requester that can prove itself says anything when it is told to. -/
theorem talks_prove {d : Dialogue (Except Failure Unit)} (h : Talks (prove b) heard said d) :
    said = [] ∨ ∃ c, b.credentials = some c ∧ fits c = true ∧ said <+: passwordMessage c := by
  unfold prove at h
  split at h
  · exact .inl (Exchange.talks_fail h)
  · rename_i c hc
    dsimp only at h
    split at h
    · exact .inl (Exchange.talks_fail h)
    · rename_i hf
      have hsaid : said <+: passwordMessage c := by
        rcases Exchange.talks_ask h with hp | ⟨answer, _, _, hn, rfl, rfl⟩
        · exact hp
        · have hnothing : ∀ {s : Bytes}, s = [] → passwordMessage c ++ s <+: passwordMessage c := by
            rintro _ rfl
            exact ⟨[], by rw [List.append_nil, List.append_nil]⟩
          split at hn
          · exact hnothing (Exchange.talks_pure hn)
          · exact hnothing (Exchange.talks_fail hn)
      exact .inr ⟨c, hc, by simpa using hf, hsaid⟩

theorem reveals_of_agree {d : Dialogue (Except Failure Unit)} (h : Talks (agree b) heard said d) :
    Reveals b command target heard said := by
  rcases Exchange.talks_ask h with hp | ⟨answer, h', s', hn, rfl, rfl⟩
  · exact .greets hp
  · have hgreets : s' = [] → Reveals b command target (answer ++ h') (greeting b ++ s') := by
      rintro rfl
      rw [List.append_nil]
      exact .greets List.prefix_rfl
    split at hn
    · rename_i version method
      split at hn
      · exact hgreets (Exchange.talks_fail hn)
      · rename_i hv
        split at hn
        · exact hgreets (Exchange.talks_pure hn)
        · split at hn
          · rename_i hm
            rcases talks_prove hn with hs | ⟨c, hc, hf, hs⟩
            · exact hgreets hs
            · obtain rfl := Decidable.not_not.1 hv
              subst hm
              exact .proves hc hf (List.prefix_append _ _) hs
          · exact hgreets (Exchange.talks_fail hn)
    · exact hgreets (Exchange.talks_fail hn)

theorem reveals_of_request {d : Dialogue (Except Failure Address)}
    (h : Talks (request b command target) heard said d) : Reveals b command target heard said := by
  rcases Exchange.talks_bind h with ⟨_, ha, -⟩ | ⟨_, h₁, h₂, s₁, s₂, ha, hn, rfl, rfl⟩
  · exact reveals_of_agree ha
  · have hagreed := agreed_of_talks ha
    split at hn
    · rw [Exchange.talks_fail hn, List.append_nil]
      exact hagreed.reveals h₂
    · rename_i address he
      refine .asks hagreed he (List.prefix_append _ _) (Exchange.prefix_of_talks_send ?_ hn)
      exact fun _ _ => @silent_awaitGrant b _ _ _

end Saying

section Keeping

/-- What becomes of the backend's choice of a method. -/
def chosen (b : Backend) : Bytes → Exchange Unit
  | [version, method] =>
    if version ≠ protocolVersion then Exchange.fail (.socks (.version protocolVersion version))
    else if method = Method.none then pure ()
    else if method = Method.password then prove b
    else Exchange.fail (.authRejected b.toText)
  | _ => Exchange.failIo .earlyEof

theorem agree_eq (b : Backend) : agree b =
    Exchange.send (greeting b) >>= fun _ => Exchange.readExact 2 >>= chosen b := rfl

/-- Only one choice makes a difference between those who have credentials. -/
theorem chosen_eq (e : Endpoint) (c c' : Credentials) {answer : Bytes}
    (h : answer ≠ [protocolVersion, Method.password]) :
    chosen ⟨e, some c⟩ answer = chosen ⟨e, some c'⟩ answer := by
  match answer, h with
  | [], _ => rfl
  | [_], _ => rfl
  | _ :: _ :: _ :: _, _ => rfl
  | [version, method], h =>
    simp only [chosen]
    split
    · rfl
    · rename_i hv
      split
      · rfl
      · split
        · rename_i hm
          exact absurd (by rw [hm, Decidable.not_not.1 hv]) h
        · rfl

/-- Those who have credentials go on alike until they are asked for them. -/
theorem alike_request (e : Endpoint) (c c' : Credentials) (command : UInt8) (target : Endpoint) :
    Alike ([protocolVersion, Method.password] <+: ·) [] (request ⟨e, some c⟩ command target)
      (request ⟨e, some c'⟩ command target) := by
  unfold request
  rw [agree_eq, agree_eq, bind_assoc, bind_assoc]
  simp only [bind_assoc]
  refine Exchange.alike_ask _ 2 fun answer => ?_
  by_cases h : answer = [protocolVersion, Method.password]
  · exact .parted (h ▸ List.prefix_rfl)
  · rw [chosen_eq e c c' h]
    exact .same

end Keeping

/-- **Credentials are shown on request only.** Of two requesters that have credentials for the same
backend, whosever they are, nobody can tell which is which: whatever the links on which they go on,
they say the same, leave every link the same and come to the same, unless what they have heard
begins with the choice of a password. And whatever a requester does, at any time, on any channel, it
has said no more than the greeting; or, asked for it, than its name and password behind the greeting;
or, after the backend has agreed, than its request behind them. One without credentials says nothing
but the greeting and the request. -/
theorem credentials_are_shown_on_request (command : UInt8) (target : Endpoint) :
    (∀ (e : Endpoint) (c c' : Credentials) (links : List Link),
      let x : Conversation (Except Failure Address) := { talk := request ⟨e, some c⟩ command target }
      let x' : Conversation (Except Failure Address) :=
        { talk := request ⟨e, some c'⟩ command target }
      ¬ [protocolVersion, Method.password] <+: (x.run links).heard →
        (x.run links).said = (x'.run links).said ∧ x.leaves links = x'.leaves links ∧
          (x.run links).talk.value? = (x'.run links).talk.value?) ∧
    ∀ (b : Backend) (heard said : Bytes) (d : Dialogue (Except Failure Address)),
      Talks (request b command target) heard said d →
        Reveals b command target heard said ∧
        (b.credentials = none → said <+: greeting b ∨
          ∃ address, (Address.ofEndpoint target).encode = .ok address ∧
            [protocolVersion, Method.none] <+: heard ∧
            said <+: greeting b ++ ([protocolVersion, command, 0] ++ address)) := by
  refine ⟨?_, fun b heard said d h => ?_⟩
  · intro e c c' links x x' hno
    have halike : x.talk.Alike _ x.heard x'.talk := alike_request e c c' command target
    exact Conversation.run_eq_of_alike (fun _ t hp => hp.trans (List.prefix_append _ t)) halike
      rfl rfl hno
  · have hreveals := reveals_of_request h
    refine ⟨hreveals, fun hb => ?_⟩
    cases hreveals with
    | greets hs => exact .inl hs
    | proves hc => cases hb.symm.trans hc
    | asks hagreed he hheard hs =>
      cases hagreed with
      | freely => exact .inr ⟨_, he, hheard, (List.prefix_append_right_inj _).2 hs⟩
      | proved hc => cases hb.symm.trans hc

/-- A backend that lets everybody go on, after a pause, takes the second write in part only, and
fails the third. -/
theorem credentials_are_not_shown_unasked :
    let target : Endpoint := ⟨"10.0.0.1", 80⟩
    let l : Link := { inlet := { source := { arrivals := [], closed := false } } }
    let l' : Link :=
      { inlet := { source := { arrivals := [.chunk [5], .notReady, .chunk [0, 5, 0]] } }
        outlet := { sink := { writes := [.takes 4, .fails ⟨.brokenPipe, none⟩] } } }
    let x : Conversation (Except Failure Address) :=
      { talk := request ⟨⟨"relay.test", 1080⟩, some ⟨"u", "p"⟩⟩ Command.connect target }
    let x' : Conversation (Except Failure Address) :=
      { talk := request ⟨⟨"relay.test", 1080⟩, some ⟨"v", "quiet"⟩⟩ Command.connect target }
    let y : Conversation (Except Failure Address) :=
      { talk := request ⟨⟨"relay.test", 1080⟩, none⟩ Command.connect target }
    ¬ [protocolVersion, Method.password] <+: (x.run [l, l']).heard ∧
      (x.run [l, l']).said = [5, 2, 0, 2, 5, 1, 0, 1] ∧
      (x.run [l, l']).said = (x'.run [l, l']).said ∧
      x.leaves [l, l'] = x'.leaves [l, l'] ∧
      (x.run [l, l']).talk.value? = (x'.run [l, l']).talk.value? ∧
      Talks y.talk (y.run [l, l']).heard (y.run [l, l']).said (y.run [l, l']).talk ∧
      Reveals ⟨⟨"relay.test", 1080⟩, none⟩ Command.connect target (y.run [l, l']).heard
        (y.run [l, l']).said := by
  intro target l l' x x' y
  have hheard : (x.run [l, l']).heard = [5, 0] := by cbv
  have hno : ¬ [protocolVersion, Method.password] <+: (x.run [l, l']).heard := by
    rw [hheard]
    decide
  obtain ⟨hsame, hreveals⟩ := credentials_are_shown_on_request Command.connect target
  obtain ⟨hsaid, hleft, hresult⟩ := hsame _ _ ⟨"v", "quiet"⟩ _ hno
  have htalks := Conversation.talks_run (c := y) .here [l, l']
  exact ⟨hno, by cbv, hsaid, hleft, hresult, htalks, (hreveals _ _ _ _ htalks).1⟩

end Requester

end SocksChain.Socks
