import SocksChain.Connection
import SocksChain.Proofs.Channel.Hearing

/-!
What the course of a connection does to its node. Only its beginning asks the white list, and only
the moment at which its client is admitted can add to it; nothing else touches the directory or the
settings, and no connection negotiates twice.
-/

namespace SocksChain

open Channel

/-- What is left of a negotiation, while there is one. -/
def Stage.talk? : Stage → Option (Dialogue (Except Failure Socks.Admission))
  | negotiating talk => some talk
  | _ => none

namespace Connection

/-- What a client is admitted for when its connection goes on. -/
def admission? (c : Connection) : Option Socks.Admission :=
  match c.stage with
  | .negotiating talk =>
    match (talk.run c.client).1 with
    | .done (.ok a) => some a
    | _ => none
  | _ => none

/-- What its negotiation reads when a connection goes on. -/
def hears (c : Connection) : Bytes :=
  match c.stage with
  | .negotiating talk => talk.hears c.client
  | _ => []

/-- A step that leaves no negotiation behind, and the directory and the settings as they are. -/
structure Leaves (n : Node) (p : Connection × Node) : Prop where
  talk : p.1.stage.talk? = none
  settings : p.2.settings = n.settings
  directory : p.2.directory = n.directory

variable {n n' : Node} {c : Connection}

theorem Leaves.of_eq {p : Connection × Node} (h : Leaves n' p) (hs : n'.settings = n.settings)
    (hd : n'.directory = n.directory) : Leaves n p :=
  ⟨h.talk, h.settings.trans hs, h.directory.trans hd⟩

theorem leaves_fail (c : Connection) (n : Node) (f : Failure) : Leaves n (c.fail n f) :=
  ⟨rfl, rfl, rfl⟩

theorem leaves_finish (c : Connection) (n : Node) (r : Except Failure Relay.Totals) :
    Leaves n (c.finish n r) :=
  ⟨rfl, rfl, rfl⟩

theorem leaves_carry (c : Connection) (n : Node) (t : Tunnel) : Leaves n (c.carry n t) := by
  unfold carry
  dsimp only
  split
  · exact leaves_finish _ _ _
  · exact ⟨rfl, rfl, rfl⟩

theorem leaves_reach (c : Connection) (n : Node) (now : Nat) (pending : Bytes)
    (approach : Approach) (near far : Ip.Socket) (talk : Dialogue (Except Failure Unit)) :
    Leaves n (c.reach n now pending approach near far talk) := by
  unfold reach
  split
  · exact (leaves_carry _ _ _).of_eq rfl rfl
  · exact leaves_finish _ _ _
  · exact ⟨rfl, rfl, rfl⟩

theorem leaves_reply (c : Connection) (n : Node) (talk : Dialogue (Except Failure Unit)) :
    Leaves n (c.reply n talk) := by
  unfold reply
  split
  · exact ⟨rfl, rfl, rfl⟩
  · exact leaves_fail _ _ _
  · exact ⟨rfl, rfl, rfl⟩

theorem leaves_associate (c : Connection) (n : Node) (names : Names) (bound : Ip.Socket) :
    Leaves n (c.associate n names bound) := by
  unfold associate
  split
  · exact leaves_fail _ _ _
  · exact ⟨rfl, rfl, rfl⟩

theorem leaves_hold (c : Connection) (n : Node) (bound : Ip.Socket) (a : Association) :
    Leaves n (c.hold bound a, n) := by
  refine ⟨?_, rfl, rfl⟩
  unfold hold
  dsimp only
  split <;> rfl

theorem depart_settings (n : Node) (now draw : Nat) (destination : Endpoint) :
    (n.depart now draw destination).2.settings = n.settings := rfl

theorem depart_directory (n : Node) (now draw : Nat) (destination : Endpoint) :
    (n.depart now draw destination).2.directory = n.directory := rfl

theorem leaves_serve (c : Connection) (n : Node) (names : Names) (now draw : Nat)
    (a : Socks.Admission) : Leaves (n.welcome now c.peer.ip a) (c.serve n names now draw a) := by
  unfold serve
  dsimp only
  split
  · rename_i destination _
    have hs := depart_settings (n.welcome now c.peer.ip a) now draw destination
    have hd := depart_directory (n.welcome now c.peer.ip a) now draw destination
    split <;> rename_i hp <;> rw [hp] at hs hd
    · exact ⟨rfl, hs, hd⟩
    · exact (leaves_finish _ _ _).of_eq hs hd
  · exact leaves_associate _ _ _ _
  · exact (leaves_reply _ _ _).of_eq rfl rfl

theorem leaves_dialled (c : Connection) (n : Node) (now : Nat) (pending : Bytes)
    (approach : Approach) (near far : Ip.Socket) (remote : Link) (e : Cipher.Entropy) :
    Leaves n (c.dialled n now pending approach near far remote e) := by
  unfold dialled
  split
  · exact leaves_finish _ _ _
  · exact leaves_reach _ _ _ _ _ _ _ _

/-- A connection begins with a negotiation, unless its cipher cannot be set up. -/
theorem start_cases (n : Node) (now : Nat) (peer relay : Ip.Socket) (client : Link)
    (e : Cipher.Entropy) : Leaves n (start n now peer relay client e) ∨
      ∃ client', start n now peer relay client e =
        (⟨peer, client', {}, .negotiating ((n.greet now peer.ip).1.converse (.ok relay) [])⟩,
          (n.greet now peer.ip).2) := by
  unfold start
  split
  · exact .inl ⟨rfl, rfl, rfl⟩
  · exact .inr ⟨_, rfl⟩

/-- A connection goes on in one of three ways: its client is admitted, it has no negotiation left,
or it goes on negotiating from where its channel let it come. -/
theorem advance_cases (c : Connection) (n : Node) (names : Names) (now draw : Nat) :
    (∃ a, c.admission? = some a ∧
      Leaves (n.welcome now c.peer.ip a) (c.advance n names now draw)) ∨
    (c.admission? = none ∧ Leaves n (c.advance n names now draw)) ∨
    (c.admission? = none ∧ ∃ talk client, c.stage = .negotiating talk ∧ c.advance n names now draw =
      ({ c with client := client, stage := .negotiating (talk.run c.client).1 }, n)) := by
  unfold advance admission?
  match hs : c.stage with
  | .negotiating talk =>
    dsimp only
    unfold negotiate
    match hr : talk.run c.client with
    | (.done (.ok a), client) =>
      exact .inl ⟨a, rfl, leaves_serve { c with client } n names now draw a⟩
    | (.done (.error f), client) => exact .inr (.inl ⟨rfl, leaves_fail { c with client } n f⟩)
    | (.read limit next, client) => exact .inr (.inr ⟨rfl, talk, client, rfl, by rw [hr]⟩)
    | (.write b next, client) => exact .inr (.inr ⟨rfl, talk, client, rfl, by rw [hr]⟩)
    | (.flush next, client) => exact .inr (.inr ⟨rfl, talk, client, rfl, by rw [hr]⟩)
  | .reaching pending approach near far talk =>
    exact .inr (.inl ⟨rfl, leaves_reach _ _ _ _ _ _ _ _⟩)
  | .carrying tunnel => exact .inr (.inl ⟨rfl, leaves_carry _ _ _⟩)
  | .associated bound a => exact .inr (.inl ⟨rfl, leaves_hold _ _ _ _⟩)
  | .answering talk => exact .inr (.inl ⟨rfl, leaves_reply _ _ _⟩)
  | .dialling pending plan => exact .inr (.inl ⟨rfl, by rw [hs]; rfl, rfl, rfl⟩)
  | .over r => exact .inr (.inl ⟨rfl, by rw [hs]; rfl, rfl, rfl⟩)

theorem timeOut_cases (c : Connection) (n : Node) :
    Leaves n (c.timeOut n) ∨ c.timeOut n = (c, n) := by
  unfold timeOut
  split
  · exact .inl (leaves_finish _ _ _)
  · exact .inr rfl

end Connection

end SocksChain
