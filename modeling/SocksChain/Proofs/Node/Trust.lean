import SocksChain.Proofs.Node.House

/-!
What a peer gains and loses by being on the white list. It need not prove itself any more, and it
must not either: a node picks one method, and from a listed peer it takes none but the one without
a password. So a client that offers to prove itself and nothing else is let in before its address
is listed, and refused for as long as it is.
-/

namespace SocksChain

open Socks

namespace Socks.Negotiation

/-- A greeting that is answered with a method, after which the handshake goes on. -/
def Takes (m : Negotiation) (greeting : Bytes) : Prop :=
  ∃ message, (m.advance greeting).outcome = .reply message

variable {m : Negotiation} {k : UInt8} {methods : Bytes}

/-- What comes of a whole greeting. -/
theorem advance_offer (hs : m.stage = .greeting) (hk : k.toNat = methods.length)
    (hm : methods ≠ []) (rest : Bytes) :
    m.advance (protocolVersion :: k :: methods ++ rest) =
      if m.wantedMethod ∈ methods then
        ⟨.reply [protocolVersion, m.wantedMethod], { m with stage := m.stageAfterGreeting }, rest⟩
      else ⟨.reject [protocolVersion, Method.refused] .noMethod, m.close, rest⟩ := by
  have hpos : 1 ≤ k.toNat := by
    rw [hk]
    exact List.length_pos_iff.mpr hm
  have hread : readGreeting (protocolVersion :: k :: methods ++ rest) =
      .ok (some (methods, rest)) := readGreeting_eq_some_iff.mpr ⟨k, rfl, hpos, hk⟩
  simp only [advance, hs, onGreeting, hread, List.contains_iff_mem]

theorem takes_iff (hs : m.stage = .greeting) (hk : k.toNat = methods.length) (hm : methods ≠ [])
    (rest : Bytes) :
    m.Takes (protocolVersion :: k :: methods ++ rest) ↔ m.wantedMethod ∈ methods := by
  rw [Takes, advance_offer hs hk hm]
  split
  · rename_i hw
    exact ⟨fun _ => hw, fun _ => ⟨_, rfl⟩⟩
  · rename_i hw
    refine ⟨fun h => ?_, fun h => absurd h hw⟩
    obtain ⟨message, h⟩ := h
    cases h

end Socks.Negotiation

namespace Node

variable {n : Node} {c : Credentials} {peer : Ip.Address} {now : Nat}

theorem greet_fst (hc : n.settings.front.credentials = some c) (now : Nat) (peer : Ip.Address) :
    (n.greet now peer).1 =
      n.settings.front.negotiation c (n.directory.isEnlisted now peer).1 := by
  rw [FrontSettings.negotiation, ← hc]
  rfl

/-- What a peer meets that has proved itself lately. -/
theorem greet_welcome (hc : n.settings.front.credentials = some c) {a : Admission}
    (ha : a.authenticated = true) {later : Nat} (hn : now ≤ later)
    (hl : later < now + n.directory.whiteListTtl) :
    ((n.welcome now peer a).greet later peer).1 = n.settings.front.negotiation c true := by
  have hwel : n.welcome now peer a = { n with directory := n.directory.enlist now peer } :=
    if_pos ha
  rw [hwel]
  refine (greet_fst (n := { n with directory := n.directory.enlist now peer }) hc _ _).trans ?_
  exact congrArg _ (n.directory.isEnlisted_enlist peer hn hl)

/-- **What the white list takes away.** A node wants a name and a password. A peer that is not on
its white list gets on with a greeting exactly if it offers to present them, and a peer that is,
exactly if it offers to do without; any other greeting is refused. So a greeting that was good
enough is so no more, for as long as the listing lasts that the peer has earned, exactly if it
offers the former and not the latter. -/
theorem white_listing_keeps_access_iff (front : FrontSettings) (c : Credentials) {k : UInt8}
    {methods : Bytes} (hk : k.toNat = methods.length) (hm : methods ≠ []) (rest : Bytes) :
    let greeting := protocolVersion :: k :: methods ++ rest
    let stranger := front.negotiation c false
    let listed := front.negotiation c true
    (stranger.Takes greeting ↔ Method.password ∈ methods) ∧
    (listed.Takes greeting ↔ Method.none ∈ methods) ∧
    (Method.none ∉ methods → listed.advance greeting =
      ⟨.reject [protocolVersion, Method.refused] .noMethod, listed.close, rest⟩) ∧
    ((stranger.Takes greeting → listed.Takes greeting) ↔
      ¬ (Method.password ∈ methods ∧ Method.none ∉ methods)) ∧
    ∀ (n : Node) (peer : Ip.Address), n.settings.front = front → front.credentials = some c →
      (∀ now, (n.directory.isEnlisted now peer).1 = false → (n.greet now peer).1 = stranger) ∧
      ∀ a : Admission, a.authenticated = true → ∀ now later, now ≤ later →
        later < now + n.directory.whiteListTtl →
        ((n.welcome now peer a).greet later peer).1 = listed := by
  intro greeting stranger listed
  have hstranger : stranger.Takes greeting ↔ Method.password ∈ methods :=
    Negotiation.takes_iff rfl hk hm rest
  have hlisted : listed.Takes greeting ↔ Method.none ∈ methods :=
    Negotiation.takes_iff rfl hk hm rest
  refine ⟨hstranger, hlisted, fun hno => ?_, ?_, ?_⟩
  · exact (Negotiation.advance_offer rfl hk hm rest).trans (if_neg hno)
  · rw [hstranger, hlisted, not_and, not_not]
  · rintro n peer rfl hc
    refine ⟨fun now hno => ?_, fun a ha now later hn hl => greet_welcome hc ha hn hl⟩
    rw [greet_fst hc, hno]

/-- A client that offers both methods gets on before and after. -/
theorem both_methods_keep_access :
    let front : FrontSettings := { credentials := some ⟨"u", "p"⟩ }
    (2 : UInt8).toNat = [Method.none, Method.password].length ∧
      (front.negotiation ⟨"u", "p"⟩ false).Takes [5, 2, 0, 2] ∧
      (front.negotiation ⟨"u", "p"⟩ true).Takes [5, 2, 0, 2] := by
  intro front
  have hk : (2 : UInt8).toNat = [Method.none, Method.password].length := rfl
  obtain ⟨hstranger, -, -, hkeeps, -⟩ :=
    white_listing_keeps_access_iff front ⟨"u", "p"⟩ hk nofun []
  have htakes := hstranger.mpr (by decide)
  exact ⟨hk, htakes, hkeeps.mpr (by decide) htakes⟩

/-- A client that offers the password only gets on before, and is refused once it is listed. -/
theorem listed_client_is_refused :
    let front : FrontSettings := { credentials := some ⟨"u", "p"⟩ }
    ((front.negotiation ⟨"u", "p"⟩ false).advance [5, 1, 2]).outcome = .reply [5, 2] ∧
      ((front.negotiation ⟨"u", "p"⟩ true).advance [5, 1, 2]).outcome =
        .reject [5, 255] .noMethod := by
  decide

end Node

end SocksChain
