import SocksChain.Proofs.Node.Course
import SocksChain.Proofs.Socks.Errand

/-!
One connection of a node, from its start until its client has been admitted and answered. The node
has other clients as well, so every turn finds it as it may be by then. Whoever has registered a
destination with the client's side of such a connection has had the node store it.
-/

namespace SocksChain

open Channel Socks

theorem Node.welcome_aliases (n : Node) (now : Nat) (peer : Ip.Address) (a : Admission) :
    (n.welcome now peer a).aliases = n.aliases := by
  unfold welcome
  split <;> rfl

namespace Connection

variable {c : Connection} {n : Node} {names : Names} {now draw : Nat}

/-- What a client is told when its connection goes on, except by a tunnel. -/
def tells (c : Connection) : Bytes :=
  match c.stage with
  | .negotiating talk =>
    talk.tells c.client ++
      match talk.run c.client with
      | (.done (.ok ⟨.register _, _, _⟩), client) =>
        Dialogue.tells (Exchange.send (Negotiation.registrationReply true)) client
      | _ => []
  | .answering talk => talk.tells c.client
  | _ => []

theorem hears_of_talk? (h : c.stage.talk? = none) : c.hears = [] := by
  unfold hears
  match hs : c.stage with
  | .negotiating talk => rw [hs] at h; cases h
  | .reaching .. | .carrying _ | .associated .. | .answering _ | .dialling .. | .over _ => rfl

theorem admission?_of_talk? (h : c.stage.talk? = none) : c.admission? = none := by
  unfold admission?
  match hs : c.stage with
  | .negotiating talk => rw [hs] at h; cases h
  | .reaching .. | .carrying _ | .associated .. | .answering _ | .dialling .. | .over _ => rfl

theorem advance_talk? (h : c.stage.talk? = none) (n : Node) (names : Names) (now draw : Nat) :
    (c.advance n names now draw).1.stage.talk? = none := by
  rcases c.advance_cases n names now draw with ⟨_, _, hl⟩ | ⟨_, hl⟩ | ⟨_, talk, client, hs, _⟩
  · exact hl.talk
  · exact hl.talk
  · rw [hs] at h
    cases h

theorem reply_aliases (c : Connection) (n : Node) (talk : Dialogue (Except Failure Unit)) :
    (c.reply n talk).2.aliases = n.aliases := by
  unfold reply
  split <;> rfl

/-- A client that is admitted for a registration has it stored in the same turn. -/
theorem advance_aliases {a : Admission} (ha : c.admission? = some a) {real : Endpoint}
    (hi : a.intent = .register real) (n : Node) (names : Names) (now draw : Nat) :
    (c.advance n names now draw).2.aliases = (n.aliases.register now real).2 := by
  unfold admission? at ha
  unfold advance
  split at ha
  · rename_i talk hs
    rw [hs]
    dsimp only
    unfold negotiate
    split at ha
    · rename_i a' hr
      cases ha
      match talk.run c.client, hr with
      | (_, client), rfl =>
        dsimp only [serve]
        rw [hi]
        dsimp only
        rw [reply_aliases, Node.register, Node.welcome_aliases]
    · cases ha
  · cases ha

/-- A negotiation that goes on admits its client, or it has come to where its channel lets it, and
nothing else has been said. -/
theorem negotiating_cases {talk : Dialogue (Except Failure Admission)}
    (hs : c.stage = .negotiating talk) (n : Node) (names : Names) (now draw : Nat) :
    (∃ a, (talk.run c.client).1 = .done (.ok a) ∧ c.admission? = some a) ∨
      c.admission? = none ∧ c.tells = talk.tells c.client ∧
        ((c.advance n names now draw).1.stage = .negotiating (talk.run c.client).1 ∨
          ∃ r, (c.advance n names now draw).1.stage = .over r) := by
  unfold admission? tells advance
  rw [hs]
  dsimp only
  unfold negotiate
  match talk.run c.client with
  | (.done (.ok a), client) => exact .inl ⟨a, rfl, rfl⟩
  | (.done (.error f), client) => exact .inr ⟨rfl, List.append_nil _, .inr ⟨_, rfl⟩⟩
  | (.read limit next, client) => exact .inr ⟨rfl, List.append_nil _, .inl rfl⟩
  | (.write b next, client) => exact .inr ⟨rfl, List.append_nil _, .inl rfl⟩
  | (.flush next, client) => exact .inr ⟨rfl, List.append_nil _, .inl rfl⟩

theorem advance_talk?_of_admission? {a : Admission} (ha : c.admission? = some a) (n : Node)
    (names : Names) (now draw : Nat) : (c.advance n names now draw).1.stage.talk? = none := by
  rcases c.advance_cases n names now draw with ⟨_, _, hl⟩ | ⟨_, hl⟩ | ⟨hn, -⟩
  · exact hl.talk
  · exact hl.talk
  · cases ha.symm.trans hn

end Connection

/-- What a connection has heard and said since its start, and what its client was admitted for. What
comes after a client has been answered is not followed. -/
structure Visit where
  connection : Connection
  heard : Bytes := []
  said : Bytes := []
  admitted : Option Intent := none

/-- The node when a connection goes on, what names stand for, and what the channels of the connection
have come to. -/
structure Visit.Turn where
  node : Node
  names : Names
  now : Nat
  draw : Nat
  client : Link
  remote : Link := {}

namespace Visit

def start (n : Node) (now : Nat) (peer relay : Ip.Socket) (client : Link) (e : Cipher.Entropy) :
    Visit :=
  { connection := (Connection.start n now peer relay client e).1 }

def resumed (v : Visit) (t : Turn) : Connection :=
  { v.connection with client := t.client, remote := t.remote }

/-- The connection and the node after a turn. -/
def after (v : Visit) (t : Turn) : Connection × Node :=
  (v.resumed t).advance t.node t.names t.now t.draw

def turn (v : Visit) (t : Turn) : Visit :=
  { connection := (v.after t).1
    heard := v.heard ++ (v.resumed t).hears
    said := v.said ++ (v.resumed t).tells
    admitted := v.admitted.or ((v.resumed t).admission?.map Admission.intent) }

def run (v : Visit) (turns : List Turn) : Visit := turns.foldl turn v

theorem turn_heard (v : Visit) (t : Turn) :
    (v.turn t).heard = v.heard ++ (v.resumed t).hears := rfl

theorem turn_said (v : Visit) (t : Turn) : (v.turn t).said = v.said ++ (v.resumed t).tells := rfl

/-- Whether `b` is all that its client may have been told. Behind what is followed, only a client
that has registered something is told nothing more. -/
def Told (v : Visit) (b : Bytes) : Prop :=
  v.said <+: b ∧ (b = v.said ∨ ∃ i, v.admitted = some i ∧ ∀ real, i ≠ .register real)

/-- In this turn the node stores `real`. -/
def Stores (v : Visit) (t : Turn) (real : Endpoint) : Prop :=
  (v.after t).2.aliases = (t.node.aliases.register t.now real).2

variable {m : Negotiation} {relay : Ip.Socket} {v : Visit}

/-- Nobody has been admitted yet, and nothing has been said but by the negotiation, which is where
it has come to if it is not over. -/
structure Negotiates (m : Negotiation) (relay : Ip.Socket) (v : Visit) : Prop where
  admitted : v.admitted = none
  talk : ∃ d, Dialogue.Talks (m.converse (.ok relay) []) v.heard v.said d ∧
    (v.connection.stage = .negotiating d ∨ ∃ r, v.connection.stage = .over r)

/-- The negotiation has come to an end with the admission of `a`. -/
structure Admits (m : Negotiation) (relay : Ip.Socket) (a : Admission) (v : Visit) : Prop where
  admitted : v.admitted = some a.intent
  talk : ∃ said, Dialogue.Talks (m.converse (.ok relay) []) v.heard said (.done (.ok a))
  stage : v.connection.stage.talk? = none

theorem negotiates_start (n : Node) (now : Nat) (peer relay : Ip.Socket) (client : Link)
    (e : Cipher.Entropy) : ∃ m : Negotiation, m.stage = .greeting ∧ m.authenticated = false ∧
      Negotiates m relay (start n now peer relay client e) := by
  refine ⟨(n.greet now peer.ip).1, rfl, rfl, rfl, _, .here, ?_⟩
  unfold start Connection.start
  split
  · exact .inr ⟨_, rfl⟩
  · exact .inl rfl

theorem Admits.turn {a : Admission} (h : Admits m relay a v) (t : Turn) :
    Admits m relay a (v.turn t) := by
  obtain ⟨ha, ⟨said, ht⟩, ho⟩ := h
  have hr : (v.resumed t).stage.talk? = none := ho
  refine ⟨?_, ⟨said, ?_⟩, Connection.advance_talk? hr _ _ _ _⟩
  · rw [Visit.turn, ha]
    rfl
  · rw [turn_heard, Connection.hears_of_talk? hr]
    rwa [List.append_nil]

theorem Admits.run {a : Admission} (h : Admits m relay a v) (turns : List Turn) :
    Admits m relay a (v.run turns) := by
  induction turns generalizing v with
  | nil => exact h
  | cons t turns ih => exact ih (h.turn t)

theorem Negotiates.turn_of_over (h : Negotiates m relay v) {r : Except Failure Unit}
    (hs : v.connection.stage = .over r) (t : Turn) : Negotiates m relay (v.turn t) := by
  have hr : (v.resumed t).stage = .over r := hs
  have hnone : (v.resumed t).stage.talk? = none := by rw [hr]; rfl
  have htells : (v.resumed t).tells = [] := by rw [Connection.tells, hr]
  have hstage : (v.turn t).connection.stage = .over r := by
    unfold turn after Connection.advance
    rw [hr]
    exact hr
  obtain ⟨ha, d, ht, -⟩ := h
  refine ⟨?_, d, ?_, .inr ⟨r, hstage⟩⟩
  · rw [turn, ha, Connection.admission?_of_talk? hnone]
    rfl
  · rw [turn_heard, turn_said, Connection.hears_of_talk? hnone, htells, List.append_nil,
      List.append_nil]
    exact ht

/-- A turn of a negotiation leaves it as it is, or admits a client; then what the client wants to
register is stored. -/
theorem Negotiates.turn_cases (h : Negotiates m relay v) (t : Turn) :
    Negotiates m relay (v.turn t) ∨ ∃ a, Admits m relay a (v.turn t) ∧
      ∀ real, a.intent = .register real → v.Stores t real := by
  obtain ⟨ha, d, ht, hs | ⟨r, hs⟩⟩ := h
  · have hr : (v.resumed t).stage = .negotiating d := hs
    have hh : (v.resumed t).hears = d.hears t.client := by
      unfold Connection.hears
      rw [hr]
      rfl
    have htalk := ht.trans (d.talks_run t.client)
    rcases Connection.negotiating_cases hr t.node t.names t.now t.draw with
      ⟨a, hd, hadm⟩ | ⟨hadm, htells, hstage⟩
    · refine .inr ⟨a, ⟨?_, ⟨v.said ++ d.tells t.client, ?_⟩, ?_⟩, fun real hi => ?_⟩
      · rw [turn, ha, hadm]
        rfl
      · rw [turn_heard, hh, ← hd]
        exact htalk
      · exact Connection.advance_talk?_of_admission? hadm _ _ _ _
      · exact Connection.advance_aliases hadm hi _ _ _ _
    · refine .inl ⟨?_, _, ?_, hstage⟩
      · rw [turn, ha, hadm]
        rfl
      · rw [turn_heard, turn_said, hh, htells]
        exact htalk
  · exact .inl (turn_of_over ⟨ha, d, ht, .inr ⟨r, hs⟩⟩ hs t)

/-- A visit is still negotiating, or one of its turns has admitted the client. -/
theorem Negotiates.run_cases (h : Negotiates m relay v) (turns : List Turn) :
    Negotiates m relay (v.run turns) ∨ ∃ a pre t post, turns = pre ++ t :: post ∧
      Admits m relay a (v.run turns) ∧
      ∀ real, a.intent = .register real → (v.run pre).Stores t real := by
  induction turns generalizing v with
  | nil => exact .inl h
  | cons t turns ih =>
    rcases h.turn_cases t with hn | ⟨a, ha, hr⟩
    · rcases ih hn with hn | ⟨a, pre, t', post, rfl, ha, hr⟩
      · exact .inl hn
      · exact .inr ⟨a, t :: pre, t', post, rfl, ha, hr⟩
    · exact .inr ⟨a, [], t, turns, rfl, ha.run turns, hr⟩

/-- **Whoever is told that a destination is registered has had the node store it**: no front end
says so to a requester before it has, whatever else either of them wants of the other. -/
theorem stores_of_registered {b : Backend} {real : Endpoint} {answered asked told : Bytes}
    (h : Dialogue.Talks (Requester.register b real) answered asked (.done (.ok ())))
    (n : Node) (now : Nat) (peer relay : Ip.Socket) (client : Link) (e : Cipher.Entropy)
    (turns : List Turn) :
    let v := (start n now peer relay client e).run turns
    v.heard <+: asked → v.Told told → answered <+: told → ∃ pre t post, turns = pre ++ t :: post ∧
      ((start n now peer relay client e).run pre).Stores t
        (Socks.Address.ofEndpoint real).toEndpoint := by
  intro v hheard htold hanswered
  obtain ⟨m, hs, hm, hstart⟩ := negotiates_start n now peer relay client e
  rcases hstart.run_cases turns with ⟨hnone, d, hd, -⟩ | ⟨a, pre, t, post, rfl, ha, hr⟩
  · refine absurd hanswered ?_
    obtain ⟨-, rfl | ⟨i, hi, -⟩⟩ := htold
    · exact Negotiation.not_prefix_of_talks hs h hd hheard
    · cases hnone.symm.trans hi
  · obtain ⟨-, ⟨said, hd⟩, -⟩ := ha
    exact ⟨pre, t, post, rfl, hr _ (Negotiation.intent_of_talks hs hm h hd hheard)⟩

end Visit

end SocksChain
