import SocksChain.Association
import SocksChain.Node

/-!
What a node does for one client, from the negotiation to the end. A connection goes on for as long
as its channels let it. When it has to reach a destination it waits to be told how dialling went.
-/

namespace SocksChain

open Channel

/-- How far a connection has come. -/
inductive Stage where
  | negotiating (talk : Dialogue (Except Failure Socks.Admission))
  /-- The client has its success reply already. -/
  | dialling (pending : Bytes) (plan : Plan Backend)
  | reaching (pending : Bytes) (approach : Approach) (near far : Ip.Socket)
      (talk : Dialogue (Except Failure Unit))
  | carrying (tunnel : Tunnel)
  | associated (bound : Ip.Socket) (association : Association)
  | answering (talk : Dialogue (Except Failure Unit))
  | over (result : Except Failure Unit)

structure Connection where
  peer : Ip.Socket
  client : Link
  remote : Link := {}
  stage : Stage

namespace Connection

/-- Takes up a client. A UDP association would be bound at `relay`. -/
def start (n : Node) (now : Nat) (peer relay : Ip.Socket) (client : Link) (e : Cipher.Entropy) :
    Connection × Node :=
  match client.secured n.settings.front.cipher e with
  | .error f => (⟨peer, client, {}, .over (.error f)⟩, n.failed f)
  | .ok client =>
    let (m, n) := n.greet now peer.ip
    (⟨peer, client, {}, .negotiating (m.converse (.ok relay) [])⟩, n)

def result? (c : Connection) : Option (Except Failure Unit) :=
  match c.stage with
  | .over r => some r
  | _ => none

/-- Ends a connection that has no tunnel. -/
def fail (c : Connection) (n : Node) (f : Failure) : Connection × Node :=
  ({ c with stage := .over (.error f) }, n.failed f)

/-- Ends a connection together with its tunnel. -/
def finish (c : Connection) (n : Node) (r : Except Failure Relay.Totals) : Connection × Node :=
  ({ c with stage := .over (r.map fun _ => ()) }, n.tunnelEnded r)

def carry (c : Connection) (n : Node) (t : Tunnel) : Connection × Node :=
  let (t, client, remote) := t.run c.client c.remote
  let c := { c with client := client, remote := remote, stage := .carrying t }
  match t.result? with
  | some r => c.finish n r
  | none => (c, n)

def reach (c : Connection) (n : Node) (now : Nat) (pending : Bytes) (approach : Approach)
    (near far : Ip.Socket) (talk : Dialogue (Except Failure Unit)) : Connection × Node :=
  match talk.run c.remote with
  | (.done (.ok ()), remote) =>
    { c with remote := remote }.carry (n.link now c.peer near far) (.ofEarly pending)
  | (.done (.error f), remote) => { c with remote := remote }.finish n (.error f)
  | (talk, remote) =>
    ({ c with remote := remote, stage := .reaching pending approach near far talk }, n)

def reply (c : Connection) (n : Node) (talk : Dialogue (Except Failure Unit)) :
    Connection × Node :=
  match talk.run c.client with
  | (.done (.ok ()), client) => ({ c with client := client, stage := .over (.ok ()) }, n)
  | (.done (.error f), client) => { c with client := client }.fail n f
  | (talk, client) => ({ c with client := client, stage := .answering talk }, n)

def associate (c : Connection) (n : Node) (names : Names) (bound : Ip.Socket) :
    Connection × Node :=
  match Remote.ofSettings names n.settings.route.datagrams with
  | .error f => c.fail n f
  | .ok remote => ({ c with stage := .associated bound { clientIp := c.peer.ip, remote } }, n)

/-- Waits for the end of the controlling connection, whatever comes before it. -/
def hold (c : Connection) (bound : Ip.Socket) (a : Association) : Connection :=
  let (f, client, _) := Relay.Flow.run { active := false } c.client.inlet {}
  { c with
    client := { c.client with inlet := client }
    stage := if f.phase.isOver then .over (.ok ()) else .associated bound a }

def serve (c : Connection) (n : Node) (names : Names) (now draw : Nat) (a : Socks.Admission) :
    Connection × Node :=
  let n := n.welcome now c.peer.ip a
  match a.intent with
  | .connect destination =>
    match n.depart now draw destination with
    | (.ok plan, n) => ({ c with stage := .dialling a.pending plan }, n)
    | (.error f, n) => c.finish n (.error f)
  | .associate bound => c.associate n names bound
  | .register real =>
    c.reply (n.register now real) (Exchange.send (Socks.Negotiation.registrationReply true))

def negotiate (c : Connection) (n : Node) (names : Names) (now draw : Nat)
    (talk : Dialogue (Except Failure Socks.Admission)) : Connection × Node :=
  match talk.run c.client with
  | (.done (.ok a), client) => { c with client := client }.serve n names now draw a
  | (.done (.error f), client) => { c with client := client }.fail n f
  | (talk, client) => ({ c with client := client, stage := .negotiating talk }, n)

/-- Goes on as far as the channels let it. -/
def advance (c : Connection) (n : Node) (names : Names) (now draw : Nat) : Connection × Node :=
  match c.stage with
  | .negotiating talk => c.negotiate n names now draw talk
  | .reaching pending approach near far talk => c.reach n now pending approach near far talk
  | .carrying tunnel => c.carry n tunnel
  | .associated bound a => (c.hold bound a, n)
  | .answering talk => c.reply n talk
  | .dialling _ _ | .over _ => (c, n)

/-- Dialling has led to a link from `near` to `far`. -/
def dialled (c : Connection) (n : Node) (now : Nat) (pending : Bytes) (approach : Approach)
    (near far : Ip.Socket) (remote : Link) (e : Cipher.Entropy) : Connection × Node :=
  match remote.secured approach.cipher e with
  | .error f => { c with remote := remote }.finish n (.error f)
  | .ok remote => { c with remote := remote }.reach n now pending approach near far approach.talk

/-- Nothing has come for as long as the node waits for a backend. -/
def timeOut (c : Connection) (n : Node) : Connection × Node :=
  match c.stage with
  | .reaching _ approach _ _ _ =>
    c.finish n (.error (approach.timedOut n.settings.route.timeoutMs))
  | _ => (c, n)

end Connection

end SocksChain
