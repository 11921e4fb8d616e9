import SocksChain.Connection
import SocksChain.Proofs.Relay.Carriage
import SocksChain.Proofs.Socks.Acceptance
import SocksChain.Proofs.Socks.Reception

/-!
From a client's first byte to the end of its tunnel. The negotiation may have read any part of what
comes behind a handshake; what it has read goes out first, and the tunnel brings the rest. So where
the one ends and the other begins makes no difference to what arrives on the other side.
-/

namespace SocksChain

open Channel Socks

namespace Tally

/-- The bytes that went to clients and the bytes that came from them. -/
def bytes (t : Tally) : UInt64 × UInt64 := (t.bytesIn, t.bytesOut)

theorem bytes_failed (t : Tally) (f : Failure) : (t.failed f).bytes = t.bytes := by
  unfold failed
  split
  · rfl
  · split
    · rfl
    · split <;> rfl

end Tally

/-- The white list has no part in where a client is taken, and nothing is counted on the way. -/
theorem Node.depart_welcome (n : Node) (now draw : Nat) (peer : Ip.Address) (a : Admission)
    (destination : Endpoint) :
    ((n.welcome now peer a).depart now draw destination).1 = (n.depart now draw destination).1 ∧
      ((n.welcome now peer a).depart now draw destination).2.tally.bytes = n.tally.bytes := by
  unfold welcome
  split <;> exact ⟨rfl, rfl⟩

namespace Connection

theorem start_of_secured {n : Node} {client l : Link} {e : Cipher.Entropy}
    (h : client.secured n.settings.front.cipher e = .ok l) (now : Nat) (peer relay : Ip.Socket) :
    start n now peer relay client e =
      (⟨peer, l, {}, .negotiating ((n.greet now peer.ip).1.converse (.ok relay) [])⟩,
        (n.greet now peer.ip).2) := by
  simp only [start, h]

theorem advance_of_admission {c : Connection} {l : Link} (n : Node) (names : Names)
    (now draw : Nat)
    {talk : Dialogue (Except Failure Admission)} {a : Admission} (hs : c.stage = .negotiating talk)
    (h : talk.run c.client = (.done (.ok a), l)) :
    c.advance n names now draw = { c with client := l }.serve n names now draw a := by
  simp only [advance, hs, negotiate, h]

theorem serve_connect (c : Connection) (n : Node) (names : Names) (now draw : Nat) {a : Admission}
    {destination : Endpoint} (ha : a.intent = .connect destination) :
    let r := c.serve n names now draw a
    r.1.client = c.client ∧ r.2.tally.bytes = n.tally.bytes ∧
      r.1.stage =
        match (n.depart now draw destination).1 with
        | .ok plan => .dialling a.pending plan
        | .error f => .over (.error f) := by
  obtain ⟨hway, hbytes⟩ := n.depart_welcome now draw c.peer.ip a destination
  rw [← hway]
  simp only [serve, ha]
  generalize (n.welcome now c.peer.ip a).depart now draw destination = found at hbytes ⊢
  match found with
  | (.ok plan, n') => exact ⟨rfl, hbytes, rfl⟩
  | (.error f, n') => exact ⟨rfl, (Tally.bytes_failed _ _).trans hbytes, rfl⟩

/-- Once a destination has been reached, its side is sent what was pending and what the client still
brings, the client is sent what that side brings, and the node counts both. -/
theorem dialled_carries (c : Connection) (n : Node) (now : Nat) (approach : Approach)
    (near far : Ip.Socket) {pending s t w y : Bytes} {remote remote₁ remote₂ : Link}
    {e : Cipher.Entropy} (hsecured : remote.secured approach.cipher e = .ok remote₁)
    (htalk : Dialogue.run approach.talk remote₁ = (.done (.ok ()), remote₂))
    (hci : c.client.inlet.Brings s) (hco : c.client.outlet.Carries w)
    (hri : remote₂.inlet.Brings t) (hro : remote₂.outlet.Carries y) :
    let r := c.dialled n now pending approach near far remote e
    r.1.result? = some (.ok ()) ∧ r.1.remote.outlet.Conveys (y ++ (pending ++ s)) ∧
      r.1.client.outlet.Conveys (w ++ t) ∧
      r.2.tally.bytesOut = n.tally.bytesOut + UInt64.ofNat (pending ++ s).length ∧
      r.2.tally.bytesIn = n.tally.bytesIn + UInt64.ofNat t.length := by
  obtain ⟨hr, hthere, hback⟩ := Tunnel.run_carries pending hci hco hri hro
  have hcarry : c.dialled n now pending approach near far remote e =
      { c with remote := remote₂ }.carry (n.link now c.peer near far) (.ofEarly pending) := by
    simp only [dialled, hsecured, reach, htalk]
  rw [hcarry]
  simp only [carry]
  generalize (Tunnel.ofEarly pending).run c.client remote₂ = run at hr hthere hback ⊢
  rw [hr]
  exact ⟨rfl, hthere, hback, rfl, rfl⟩

/-- **Every byte behind a request reaches the other side exactly once and in order.** However the
bytes of a client are cut, its handshake is answered and nothing is counted before its destination
has been reached. Then that side is sent exactly what came behind the handshake, and the client
exactly what that side had to say. -/
theorem passage_is_faithful (n n₁ : Node) (names : Names) (now now₁ draw : Nat)
    (peer relay : Ip.Socket)
    {client l : Link} {e : Cipher.Entropy} {b r said : Bytes} {destination : Endpoint}
    (hsecured : client.secured n.settings.front.cipher e = .ok l)
    (hb : (n.greet now peer.ip).1.Connects b destination said) (hi : l.inlet.Brings (b ++ r))
    (ho : l.outlet.Carries []) :
    let begun := start n now peer relay client e
    let met := begun.1.advance n₁ names now₁ draw
    begun.2.tally = n.tally ∧ met.2.tally.bytes = n₁.tally.bytes ∧ ∃ pending,
      met.1.stage =
        (match (n₁.depart now₁ draw destination).1 with
          | .ok plan => .dialling pending plan
          | .error f => .over (.error f)) ∧
      ∀ (n₂ : Node) (now₂ : Nat) (approach : Approach) (near far : Ip.Socket)
        (remote remote₁ remote₂ : Link) (e₂ : Cipher.Entropy) (t y : Bytes),
        remote.secured approach.cipher e₂ = .ok remote₁ →
        Dialogue.run approach.talk remote₁ = (.done (.ok ()), remote₂) →
        remote₂.inlet.Brings t → remote₂.outlet.Carries y →
        let ended := met.1.dialled n₂ now₂ pending approach near far remote e₂
        ended.1.result? = some (.ok ()) ∧ ended.1.remote.outlet.Conveys (y ++ r) ∧
          ended.1.client.outlet.Conveys (said ++ t) ∧
          ended.2.tally.bytesOut = n₂.tally.bytesOut + UInt64.ofNat r.length ∧
          ended.2.tally.bytesIn = n₂.tally.bytesIn + UInt64.ofNat t.length := by
  intro begun met
  have hj : (n.greet now peer.ip).1.judge (.ok relay) (b ++ r) = _ :=
    Negotiation.judge_connects rfl rfl hb r
  obtain ⟨pending, s, l', hrun, hi', ho', hrest⟩ := Negotiation.run_converse_of_faithful
    bringing_brings carrying_carries (.ok relay) (n.greet now peer.ip).1 [] hi ho
  simp only [List.nil_append, hj] at hrun ho' hrest
  have hbegun : begun = _ := start_of_secured hsecured now peer relay
  let a : Admission := ⟨.connect destination, pending, (n.greet now peer.ip).1.requiresPassword⟩
  let admitted : Connection :=
    ⟨peer, l', {}, .negotiating ((n.greet now peer.ip).1.converse (.ok relay) [])⟩
  have hmet : met = admitted.serve n₁ names now₁ draw a := by
    simp only [met, hbegun]
    exact advance_of_admission n₁ names now₁ draw rfl hrun
  obtain ⟨hclient, hbytes, hstage⟩ := admitted.serve_connect n₁ names now₁ draw (a := a) rfl
  rw [← hmet] at hclient hbytes hstage
  refine ⟨by rw [hbegun]; rfl, hbytes, pending, hstage, ?_⟩
  intro n₂ now₂ approach near far remote remote₁ remote₂ e₂ t y hsecured₂ htalk hri hro
  rw [← hrest]
  exact met.1.dialled_carries n₂ now₂ approach near far hsecured₂ htalk
    (by rwa [hclient]) (by rwa [hclient]) hri hro

/-- A byte that comes with the request and two that come later, to a destination behind a cipher. -/
theorem passage_is_faithful_across_cut :
    let peer : Ip.Socket := ⟨.loopback, 4000⟩
    let client : Link :=
      { inlet :=
          { source :=
              { arrivals := [.chunk [5, 1, 2, 1], .notReady,
                  .chunk [1, 117, 1, 112, 5, 1, 0, 1, 10, 0, 0, 1, 0, 80, 7], .notReady,
                  .chunk [8, 9]] } },
        outlet := { sink := { writes := [.takes 1, .notReady], flushes := [.notReady] } } }
    let key := Cipher.SharedKey.ofSecret .aes128Gcm "secret"
    let sent := ((Cipher.Encryptor.stream { key }).feed {} [[4, 5], [6]]).1.flatten
    let remote : Link := { inlet := { source := { arrivals := [.chunk sent] } } }
    let names : Names := fun _ _ => .ok []
    let approach : Approach :=
      { Approach.direct ⟨"10.0.0.1", 80⟩ with cipher := some ⟨"aes-128-gcm", "secret"⟩ }
    ∃ n, Node.ofSettings { front := { credentials := some ⟨"u", "p"⟩ } } = .ok n ∧ ∃ pending,
      let met := (start n 0 peer peer client {}).1.advance n names 0 0
      let ended := met.1.dialled n 0 pending approach peer peer remote {}
      met.1.stage = .dialling pending ⟨.direct ⟨"10.0.0.1", 80⟩, none⟩ ∧
        ended.1.result? = some (.ok ()) ∧ ended.1.remote.outlet.Conveys [7, 8, 9] ∧
        ended.1.client.outlet.Conveys [5, 2, 1, 0, 5, 0, 0, 1, 0, 0, 0, 0, 0, 0, 4, 5, 6] ∧
        ended.2.tally.bytesOut = 3 ∧ ended.2.tally.bytesIn = 3 := by
  intro peer client key sent remote names approach
  obtain ⟨n, hn⟩ : ∃ n, Node.ofSettings { front := { credentials := some ⟨"u", "p"⟩ } } = .ok n :=
    ⟨_, rfl⟩
  have hg : (n.greet 0 peer.ip).1 = { credentials := some ⟨"u", "p"⟩, registrations := true } := by
    cases hn
    rfl
  have hb : (n.greet 0 peer.ip).1.Connects
      ([5, 1, 2] ++ [1, 1, 117, 1, 112] ++ [5, 1, 0, 1, 10, 0, 0, 1, 0, 80]) ⟨"10.0.0.1", 80⟩
      ([5, 2, 1, 0] ++ [5, 0, 0, 1, 0, 0, 0, 0, 0, 0]) := by
    have ha : Address.parse [1, 10, 0, 0, 1, 0, 80] =
        .ok (some (.ip ⟨.v4 ⟨10, 0, 0, 1⟩, 80⟩, [])) := rfl
    rw [hg]
    refine .intro ?_ ?_ ha
    · exact ⟨1, [2], rfl, by decide, rfl, by decide⟩
    · exact ⟨⟨"u", "p"⟩, rfl, 1, 1, rfl, rfl, rfl⟩
  have hi : client.inlet.Brings ([5, 1, 2] ++ [1, 1, 117, 1, 112] ++
      [5, 1, 0, 1, 10, 0, 0, 1, 0, 80] ++ [7, 8, 9]) :=
    ⟨_, ⟨rfl, by simp [client, Arrival.Delivers], rfl⟩, rfl⟩
  have ho : client.outlet.Carries [] :=
    ⟨by constructor <;> simp [client, Acceptance.Takes, Settling.Succeeds], rfl⟩
  obtain ⟨-, -, pending, hstage, h⟩ := passage_is_faithful n n names 0 0 0 peer peer
    (by cases hn; rfl : client.secured n.settings.front.cipher {} = .ok client) hb hi ho
  have hsent : sent ≠ [] := by
    intro hn
    have hlen := congrArg List.length hn
    simp only [sent, Cipher.Encryptor.flatten_feed_fresh, List.length_append,
      Cipher.Entropy.length_draw] at hlen
    cases (Nat.add_eq_zero_iff.mp hlen).1
  have hri : (remote.ciphered (key.pair false) {}).inlet.Brings (List.flatten [[4, 5], [6]]) :=
    Inlet.brings_sent ⟨rfl, by simpa [remote, Arrival.Delivers] using hsent, List.append_nil _⟩
  have hro : (remote.ciphered (key.pair false) {}).outlet.Carries [] :=
    Outlet.carries_fresh ⟨by simp [remote], by simp [remote]⟩ rfl {}
  obtain ⟨hr, hthere, hback, hout, hin⟩ := h n 0 approach peer peer remote _ _ {} _ _
    (rfl : _ = Except.ok (remote.ciphered (key.pair false) {})) rfl hri hro
  refine ⟨n, hn, pending, ?_, hr, hthere, hback, ?_, ?_⟩
  · have hd : (n.depart 0 0 ⟨"10.0.0.1", 80⟩).1 = .ok ⟨.direct ⟨"10.0.0.1", 80⟩, none⟩ := by
      cases hn
      rfl
    rw [hstage, hd]
  · rw [hout]
    cases hn
    rfl
  · rw [hin]
    cases hn
    rfl

end Connection

end SocksChain
