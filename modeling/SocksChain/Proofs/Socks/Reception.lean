import SocksChain.Proofs.Channel.Delivery
import SocksChain.Proofs.Channel.Hearing
import SocksChain.Proofs.Socks.Verdict

/-!
Conversing with a client over a channel comes to the verdict on the byte string that the channel
delivers, however it is cut. So a client is admitted exactly if its bytes begin with a handshake
of the grammar, and everything behind that handshake is still there. On a channel that delivers
less, or fails, what has been read of a client that is admitted is still such a handshake.
-/

namespace SocksChain.Socks

open Channel

namespace Negotiation

/-- One turn of a conversation, with no proof of why it ends. -/
theorem converse_eq (relay : Except IoError Ip.Socket) (m : Negotiation) (buf : Bytes) :
    m.converse relay buf =
      match (m.advance buf).outcome with
      | .abort f => Exchange.fail (.socks f)
      | .needMore =>
        Exchange.read longestIncomplete >>= fun more =>
          if more = [] then Exchange.fail (.protocol (.closedDuring m.stage.name))
          else m.converse relay (buf ++ more)
      | .reply message =>
        Exchange.send message >>= fun _ =>
          (m.advance buf).machine.converse relay (m.advance buf).rest
      | .connect message destination =>
        Exchange.send message >>= fun _ =>
          pure ⟨.connect destination, (m.advance buf).rest, m.authenticated⟩
      | .associate _ =>
        match relay with
        | .error e => Exchange.failIo e
        | .ok bound =>
          Exchange.send (associateReply bound) >>= fun _ =>
            pure ⟨.associate bound, (m.advance buf).rest, m.authenticated⟩
      | .register real => pure ⟨.register real, (m.advance buf).rest, m.authenticated⟩
      | .reject message f => Exchange.send message >>= fun _ => Exchange.fail (.socks f) := by
  rw [converse.eq_def]
  cases relay with
  | error e => split <;> rename_i h <;> simp only [h, dite_eq_ite]
  | ok bound => split <;> rename_i h <;> simp only [h, dite_eq_ite]

section Faithful

variable {P : Inlet → Bytes → Prop} {Q : Outlet → Bytes → Prop}

/-- A turn that neither waits nor replies says what its verdict says, and is the last one. -/
theorem run_converse_of_last (relay : Except IoError Ip.Socket) {m : Negotiation} {buf : Bytes}
    {l : Link} (hQ : Carrying Q) {x : Bytes} (ho : Q l.outlet x)
    (hw : (m.advance buf).outcome ≠ .needMore)
    (hr : ∀ message, (m.advance buf).outcome ≠ .reply message) : ∃ o,
      Dialogue.run (m.converse relay buf) l =
        (.done ((m.judge relay buf).result.map fun p => ⟨p.1, (m.advance buf).rest, p.2⟩),
          { l with outlet := o }) ∧
      Q o (x ++ (m.judge relay buf).said) := by
  have hx : Q l.outlet (x ++ []) := by rwa [List.append_nil]
  rw [converse_eq, judge_eq]
  match h : (m.advance buf).outcome with
  | .needMore => exact absurd h hw
  | .reply message => exact absurd h (hr message)
  | .abort f => exact ⟨l.outlet, rfl, hx⟩
  | .register real => exact ⟨l.outlet, rfl, hx⟩
  | .connect message destination =>
    obtain ⟨o, hrun, ht⟩ := Exchange.run_send_bind hQ message (fun _ => pure
      (⟨.connect destination, (m.advance buf).rest, m.authenticated⟩ : Admission)) ho
    exact ⟨o, hrun, ht⟩
  | .reject message f =>
    obtain ⟨o, hrun, ht⟩ := Exchange.run_send_bind hQ message
      (fun _ => (Exchange.fail (.socks f) : Exchange Admission)) ho
    exact ⟨o, hrun, ht⟩
  | .associate hint =>
    cases relay with
    | error e => exact ⟨l.outlet, rfl, hx⟩
    | ok bound =>
      obtain ⟨o, hrun, ht⟩ := Exchange.run_send_bind hQ (associateReply bound) (fun _ => pure
        (⟨.associate bound, (m.advance buf).rest, m.authenticated⟩ : Admission)) ho
      exact ⟨o, hrun, ht⟩

/-- **On a channel that brings `s` and carries what it is given, a conversation comes to the
verdict on `s`**: it ends, says what the verdict says, and leaves, in its buffer and on the
channel, what the verdict leaves. -/
theorem run_converse_of_faithful (hP : Bringing P) (hQ : Carrying Q)
    (relay : Except IoError Ip.Socket) (m : Negotiation) (buf : Bytes) {l : Link} {s x : Bytes}
    (hi : P l.inlet s) (ho : Q l.outlet x) : ∃ pending s' l',
      Dialogue.run (m.converse relay buf) l =
        (.done ((m.judge relay (buf ++ s)).result.map fun p => ⟨p.1, pending, p.2⟩), l') ∧
      P l'.inlet s' ∧ Q l'.outlet (x ++ (m.judge relay (buf ++ s)).said) ∧
      pending ++ s' = (m.judge relay (buf ++ s)).rest := by
  induction m, buf using converse.induct relay generalizing l s x with
  | case2 m buf h ih =>
    obtain ⟨more, s', i, hrun, hi', rfl, hend⟩ := Exchange.run_read hP (fun more =>
      if more = [] then
        (Exchange.fail (.protocol (.closedDuring m.stage.name)) : Exchange Admission)
      else m.converse relay (buf ++ more)) hi (by decide : 0 < longestIncomplete)
    rw [converse_eq, h]
    by_cases hm : more = []
    · obtain ⟨rfl, rfl⟩ := List.append_eq_nil_iff.mp (hend hm)
      have hv : m.judge relay (buf ++ ([] ++ [])) =
          ⟨.error (.protocol (.closedDuring m.stage.name)), [], (m.advance buf).rest⟩ := by
        rw [List.append_nil, List.append_nil, judge_eq, h]
      rw [hv]
      exact ⟨(m.advance buf).rest, [], _, hrun, hi', by rwa [List.append_nil],
        List.append_nil _⟩
    · obtain ⟨pending, s'', l', hrun', h'⟩ := ih more hm (l := { l with inlet := i }) hi' ho
      rw [List.append_assoc] at hrun' h'
      exact ⟨pending, s'', l', by rw [hrun, if_neg hm, hrun'], h'⟩
  | case3 m buf message h hlt ih =>
    obtain ⟨o, hrun, ho'⟩ := Exchange.run_send_bind hQ message
      (fun _ => (m.advance buf).machine.converse relay (m.advance buf).rest) ho
    obtain ⟨pending, s', l', hrun', hi', ht, hp⟩ := ih (l := { l with outlet := o }) hi ho'
    rw [converse_eq, h, judge_append_of_reply h]
    refine ⟨pending, s', l', hrun.trans hrun', hi', ?_, hp⟩
    rwa [List.append_assoc] at ht
  | case1 m buf _ h | case4 m buf _ _ h | case5 m buf _ h | case6 m buf _ h | case7 m buf _ h
  | case8 m buf _ _ h =>
    have hw : (m.advance buf).outcome ≠ .needMore := by simp [h]
    have hr : ∀ message, (m.advance buf).outcome ≠ .reply message := by simp [h]
    obtain ⟨o, hrun, ht⟩ := run_converse_of_last relay hQ ho hw hr
    rw [judge_append hw hr]
    exact ⟨_, s, { l with outlet := o }, hrun, hi, ht, rfl⟩

end Faithful

/-- In particular on a bare one. -/
theorem run_converse (relay : Except IoError Ip.Socket) (m : Negotiation) (buf : Bytes) {l : Link}
    {s : Bytes} (hi : l.inlet.Delivers s) (ho : l.outlet.Takes) : ∃ pending s' l',
      Dialogue.run (m.converse relay buf) l =
        (.done ((m.judge relay (buf ++ s)).result.map fun p => ⟨p.1, pending, p.2⟩), l') ∧
      l'.inlet.Delivers s' ∧ l'.outlet.Takes ∧
      l'.outlet.sink.taken = l.outlet.sink.taken ++ (m.judge relay (buf ++ s)).said ∧
      pending ++ s' = (m.judge relay (buf ++ s)).rest := by
  obtain ⟨pending, s', l', hrun, hd, ⟨hto, ht⟩, hrest⟩ :=
    run_converse_of_faithful bringing_delivers carrying_takes relay m buf hi ⟨ho, rfl⟩
  exact ⟨pending, s', l', hrun, hd, hto, ht, hrest⟩

/-- Whoever is admitted, on whatever channel, has been admitted for what was read. -/
theorem judge_admits_of_follows {relay : Except IoError Ip.Socket} {m : Negotiation}
    {buf b : Bytes} {a : Admission}
    (h : Dialogue.Follows (m.converse relay buf) b (.done (.ok a))) :
    (m.judge relay (buf ++ b)).Admits a.intent a.authenticated a.pending := by
  induction m, buf using converse.induct relay generalizing b with
  | case1 m buf f ho =>
    rw [converse_eq, ho] at h
    exact absurd h Exchange.not_follows_fail
  | case2 m buf ho ih =>
    rw [converse_eq, ho] at h
    obtain ⟨more, b₁, b₂, hr, hn, rfl⟩ := Exchange.exists_of_follows_bind h
    obtain rfl := Exchange.eq_of_follows_read hr
    by_cases hm : b₁ = []
    · rw [if_pos hm] at hn
      exact absurd hn Exchange.not_follows_fail
    · rw [if_neg hm] at hn
      rw [← List.append_assoc]
      exact ih b₁ hm hn
  | case3 m buf message ho hlt ih =>
    rw [converse_eq, ho] at h
    have ha := ih (Exchange.follows_of_follows_send h)
    rw [judge_append_of_reply ho]
    exact ha
  | case4 m buf message destination ho =>
    rw [converse_eq, ho] at h
    have hp := Exchange.follows_of_follows_send h
    obtain ⟨rfl, rfl⟩ := Exchange.eq_of_follows_pure hp
    rw [List.append_nil, judge_eq, ho]
    exact ⟨rfl, rfl⟩
  | case5 m buf hint ho e he =>
    rw [converse_eq, ho, he] at h
    exact absurd h Exchange.not_follows_fail
  | case6 m buf hint ho bound hb =>
    rw [converse_eq, ho, hb] at h
    have hp := Exchange.follows_of_follows_send h
    obtain ⟨rfl, rfl⟩ := Exchange.eq_of_follows_pure hp
    rw [List.append_nil, judge_eq, ho, hb]
    exact ⟨rfl, rfl⟩
  | case7 m buf real ho =>
    rw [converse_eq, ho] at h
    obtain ⟨rfl, rfl⟩ := Exchange.eq_of_follows_pure h
    rw [List.append_nil, judge_eq, ho]
    exact ⟨rfl, rfl⟩
  | case8 m buf message f ho =>
    rw [converse_eq, ho] at h
    exact absurd (Exchange.follows_of_follows_send h) Exchange.not_follows_fail

/-- **A conversation admits exactly the handshakes of the grammar.** However the bytes of a client
are cut, it is admitted with `r` left exactly if its bytes are such a handshake followed by `r`,
and it counts as authenticated exactly if a password was wanted. -/
theorem converse_admits_iff (credentials : Option Credentials) (trusted registrations : Bool)
    (relay : Except IoError Ip.Socket) {l : Link} {s : Bytes} (hi : l.inlet.Delivers s)
    (ho : l.outlet.Takes) (i : Intent) (proved : Bool) (r : Bytes) :
    let m : Negotiation :=
      { credentials := credentials, trusted := trusted, registrations := registrations }
    (∃ pending l', Dialogue.run (m.converse relay []) l = (.done (.ok ⟨i, pending, proved⟩), l') ∧
        pending ++ l'.inlet.source.unread = r) ↔
      proved = m.requiresPassword ∧ ∃ g p c, m.Greets g ∧ m.Proves p ∧
        Asks registrations relay c i ∧ s = g ++ p ++ c ++ r := by
  intro m
  obtain ⟨pending, s', l', hrun, hd, -, -, hrest⟩ := run_converse relay m [] hi ho
  rw [List.nil_append] at hrun hrest
  rw [← judge_admits_iff (m := m) rfl rfl, hrun]
  constructor
  · intro h
    obtain ⟨pending', l'', h, rfl⟩ := h
    obtain ⟨hv, rfl⟩ := Prod.mk.inj h
    cases hj : (m.judge relay s).result with
    | error f =>
      rw [hj] at hv
      cases hv
    | ok p =>
      rw [hj] at hv
      cases hv
      exact ⟨hj, by rw [← hrest, hd.unread]⟩
  · intro h
    obtain ⟨hj, rfl⟩ := h
    refine ⟨pending, l', ?_, ?_⟩
    · rw [hj]
      rfl
    · rw [hd.unread, hrest]

/-- A registration in four pieces, with the name and password wanted and two bytes behind it. -/
theorem converse_admits_registration :
    let l : Link :=
      { inlet :=
          { source :=
              { arrivals := [.chunk [5, 2, 0], .notReady, .chunk [2, 1, 1, 117, 1], .notReady,
                  .notReady, .chunk [112, 5, 128, 9, 1, 10, 0], .chunk [0, 1, 0, 80, 7, 8]],
                closed := true } },
        outlet := { sink := { writes := [.takes 1, .notReady], flushes := [.notReady] } } }
    let m : Negotiation := { credentials := some ⟨"u", "p"⟩, registrations := true }
    ∃ pending l', Dialogue.run (m.converse (.ok ⟨.v4 .unspecified, 0⟩) []) l =
        (.done (.ok ⟨.register (.ofSocket ⟨.v4 ⟨10, 0, 0, 1⟩, 80⟩), pending, true⟩), l') ∧
      pending ++ l'.inlet.source.unread = [7, 8] := by
  intro l m
  have hi : l.inlet.Delivers
      [5, 2, 0, 2, 1, 1, 117, 1, 112, 5, 128, 9, 1, 10, 0, 0, 1, 0, 80, 7, 8] := by
    refine ⟨rfl, rfl, ?_, rfl⟩
    simp [l, Arrival.Delivers]
  have ho : l.outlet.Takes := by
    refine ⟨rfl, ?_, ?_⟩ <;> simp [l, Acceptance.Takes, Settling.Succeeds]
  refine (converse_admits_iff (some ⟨"u", "p"⟩) false true (.ok ⟨.v4 .unspecified, 0⟩) hi ho
    (.register (.ofSocket ⟨.v4 ⟨10, 0, 0, 1⟩, 80⟩)) true [7, 8]).mpr ⟨rfl, ?_⟩
  refine ⟨[5, 2, 0, 2], [1, 1, 117, 1, 112], [5, 128, 9, 1, 10, 0, 0, 1, 0, 80], ?_, ?_, ?_, rfl⟩
  · exact ⟨2, [0, 2], rfl, by decide, rfl, by decide⟩
  · exact ⟨⟨"u", "p"⟩, rfl, 1, 1, rfl, rfl, rfl⟩
  · have hb : Address.parse [1, 10, 0, 0, 1, 0, 80] =
        .ok (some (.ip ⟨.v4 ⟨10, 0, 0, 1⟩, 80⟩, [])) := rfl
    exact Asks.register hb rfl

end Negotiation

end SocksChain.Socks
