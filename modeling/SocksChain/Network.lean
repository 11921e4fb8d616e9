import SocksChain.Connection

/-!
Nodes on a network in memory. Every connection is a cable with two ends; what one end sends arrives
at the other one in order and without loss, and an end that is shut reads as the end of input. The
network runs until nothing moves any more; waiting beyond that lets every pending handshake time
out.
-/

namespace SocksChain

open Channel

/-- A node's connection with a client, and the ends of cables it holds. -/
structure Service where
  node : Nat
  near : Nat
  far : Option Nat := none
  connection : Connection

/-- A node telling a backend what an alias stands for. -/
structure Notice where
  node : Nat
  hash : UInt64
  near : Nat
  talk : Dialogue (Except Failure Unit)

/-- What runs on a network by itself. -/
inductive Party where
  | echo (near : Nat)
  | service (s : Service)
  | notice (m : Notice)

structure Network where
  names : Names
  /-- The addresses that never answer. -/
  silent : Ip.Address → Bool
  nodes : Array (Ip.Socket × Node) := #[]
  /-- Where everything that arrives is sent back. -/
  echoes : List Ip.Socket := []
  /-- Where somebody outside the network answers. -/
  desks : List Ip.Socket := []
  /-- The ends `2 * k` and `2 * k + 1` belong to one cable. -/
  ends : Array Link := #[]
  parties : Array Party := #[]
  nextPort : UInt16 := 49152
  now : Nat := 0

namespace Network

/-- Listens at an endpoint, whose host is looked up as its canonical text has it. -/
def bind (names : Names) (listen : Ip.Zoned → Except IoError Ip.Socket) (e : Endpoint) :
    Except Failure Ip.Socket :=
  let found : Except IoError (List Ip.Zoned) := match e.ip? with
    | some (.v6 x) => .ok [.ofSocket ⟨.v6 x, e.port⟩]
    | _ => sockets names e.host e.port
  match found with
  | .error e => .error (.io e)
  | .ok [] => .error (.config (.other s!"bind address {e.toText} does not resolve"))
  | .ok (place :: _) => (listen place).mapError .io

/-- A node with these settings, and where it listens. -/
def host (names : Names) (listen : Ip.Zoned → Except IoError Ip.Socket) (s : Settings) :
    Except Failure (Ip.Socket × Node) := do
  let n ← Node.ofSettings s
  return (← bind names listen n.settings.front.endpoint, n)

def other (e : Nat) : Nat := if e % 2 = 0 then e + 1 else e - 1

def link (w : Network) (e : Nat) : Link := w.ends.getD e {}

def withLink (w : Network) (e : Nat) (l : Link) : Network :=
  { w with ends := w.ends.setIfInBounds e l }

def node? (w : Network) (i : Nat) : Option Node := w.nodes[i]?.map Prod.snd

def withNode (w : Network) (i : Nat) (n : Node) : Network :=
  { w with nodes := w.nodes.modify i fun s => (s.1, n) }

def withParty (w : Network) (i : Nat) (p : Party) : Network :=
  { w with parties := w.parties.setIfInBounds i p }

/-- Lets go of an end: nothing more is sent from it. -/
def hangUp (w : Network) (e : Nat) : Network :=
  { w with ends := w.ends.modify e fun l =>
      { l with outlet := { l.outlet with sink := l.outlet.sink.shutdown } } }

/-- Keeps what a service has come to. One that is over lets go of its ends. -/
def keep (w : Network) (i : Nat) (s : Service) (n : Node) : Network :=
  let c := s.connection
  let w := ((w.withNode s.node n).withLink s.near c.client).withParty i (.service s)
  let w := s.far.elim w fun e => w.withLink e c.remote
  if c.result?.isSome then s.far.elim (w.hangUp s.near) (w.hangUp s.near).hangUp else w

/-- Lays a cable from `near` to whoever answers at `far`, and gives its near end. -/
def connect (w : Network) (near far : Ip.Socket) : Nat × Network :=
  let e := w.ends.size
  let fresh : Link := { inlet := { source := { closed := false } } }
  let w := { w with ends := (w.ends.push fresh).push fresh, nextPort := w.nextPort + 2 }
  (e,
    if w.echoes.contains far then { w with parties := w.parties.push (.echo (e + 1)) }
    else
      match w.nodes.findIdx? fun s => s.1 = far with
      | none => w
      | some node =>
        (w.node? node).elim w fun n =>
          let (c, n) := Connection.start n w.now near ⟨far.ip, near.port + 1⟩ fresh {}
          let s : Service := { node, near := e + 1, connection := c }
          { w with parties := w.parties.push (.service s) }.keep w.parties.size s n)

def isOpen (w : Network) (s : Ip.Socket) : Bool :=
  w.nodes.any (fun n => n.1 = s) || w.echoes.contains s || w.desks.contains s

/-- What comes of trying an address of the network. -/
def attempt (w : Network) (x : Ip.Zoned) : Trial :=
  if w.isOpen x.socket then .connected
  else if w.silent x.socket.ip then .unanswered
  else .failed ⟨.connectionRefused, none⟩

/-- Dials from an address: gives both socket addresses and the near end of the cable. -/
def dial (w : Network) (source : Ip.Address) (place : Endpoint) (timeoutMs : Nat) :
    Except Failure (Ip.Socket × Ip.Socket × Nat) × Network :=
  match place.dial w.names w.attempt timeoutMs with
  | .error f => (.error f, w)
  | .ok found =>
    let near : Ip.Socket := ⟨source, w.nextPort⟩
    let (e, w) := w.connect near found.socket
    (.ok (near, found.socket, e), w)

/-- Dials, and speaks the cipher of the place. -/
def call (w : Network) (source : Ip.Address) (place : Endpoint) (cipher : Option CipherSettings)
    (timeoutMs : Nat) : Except Failure (Ip.Socket × Ip.Socket × Nat) × Network :=
  match w.dial source place timeoutMs with
  | (.error f, w) => (.error f, w)
  | (.ok (near, far, e), w) =>
    match (w.link e).secured cipher {} with
    | .error f => (.error f, w.hangUp e)
    | .ok l => (.ok (near, far, e), w.withLink e l)

def propagationFailed (w : Network) (node : Nat) (hash : UInt64) : Network :=
  (w.node? node).elim w fun n => w.withNode node (n.propagationFailed hash)

/-- Goes on with a notice as far as it can. -/
def inform (w : Network) (i : Nat) (m : Notice) : Network :=
  let (talk, l) := m.talk.run (w.link m.near)
  let w := (w.withLink m.near l).withParty i (.notice { m with talk })
  match talk.value? with
  | none => w
  | some (.ok ()) => w.hangUp m.near
  | some (.error _) => (w.propagationFailed m.node m.hash).hangUp m.near

def notify (w : Network) (node : Nat) (n : Node) (backend : Backend) (s : Substitution) : Network :=
  match Endpoint.ofText? s.real with
  | none => w.propagationFailed node s.hash
  | some real =>
    let a := Approach.registration n.settings.route.cipher backend real
    match w.call .loopback a.place a.cipher n.settings.route.timeoutMs with
    | (.error _, w) => w.propagationFailed node s.hash
    | (.ok (_, _, e), w) =>
      let m : Notice := ⟨node, s.hash, e, a.talk⟩
      { w with parties := w.parties.push (.notice m) }.inform w.parties.size m

/-- Dials for a connection, after the notice that goes with its plan. -/
def reachOut (w : Network) (i : Nat) (s : Service) (n : Node) (pending : Bytes)
    (plan : Plan Backend) : Network :=
  let w := plan.notice.elim w fun (backend, x) => w.notify s.node n backend x
  let (result, w) := w.dial .loopback plan.approach.place n.settings.route.timeoutMs
  (w.node? s.node).elim w fun n =>
    match result with
    | .error f =>
      let (c, n) := s.connection.finish n (.error f)
      w.keep i { s with connection := c } n
    | .ok (near, far, e) =>
      let (c, n) := s.connection.dialled n w.now pending plan.approach near far (w.link e) {}
      w.keep i { s with far := some e, connection := c } n

/-- The connection of a service with what has arrived for it. -/
def current (w : Network) (s : Service) : Connection :=
  { s.connection with client := w.link s.near, remote := s.far.elim {} w.link }

/-- Goes on with a service as far as it can. -/
def attend (w : Network) (i : Nat) (s : Service) (n : Node) : Network :=
  let (c, n) := (w.current s).advance n w.names w.now 0
  let s := { s with connection := c }
  let w := w.keep i s n
  match c.stage with
  | .dialling pending plan => w.reachOut i s n pending plan
  | _ => w

def advance (w : Network) (i : Nat) : Network :=
  match w.parties[i]? with
  | none => w
  | some (.echo e) =>
    let (_, inlet, outlet) := Relay.Flow.run {} (w.link e).inlet (w.link e).outlet
    w.withLink e ⟨inlet, outlet⟩
  | some (.notice m) => if m.talk.value?.isSome then w else w.inform i m
  | some (.service s) =>
    if s.connection.result?.isSome then w else (w.node? s.node).elim w (w.attend i s)

/-- Moves what an end has sent to the other one, and says whether anything moved. -/
def carry (w : Network) (e : Nat) : Bool × Network :=
  let l := w.link e
  let r := w.link (other e)
  let sink := l.outlet.sink
  let source := r.inlet.source
  let arrived := { source.arrive [.chunk sink.taken] with closed := sink.shut }
  (!sink.taken.isEmpty || sink.shut && !source.closed,
    (w.withLink e { l with outlet := { l.outlet with sink := { sink with taken := [] } } }).withLink
      (other e) { r with inlet := { r.inlet with source := arrived } })

def carryAll (w : Network) : Bool × Network :=
  (List.range w.ends.size).foldl (fun (moved, w) e =>
    let (m, w) := w.carry e
    (moved || m, w)) (false, w)

/-- Runs until nothing moves any more; `fuel` bounds the rounds. -/
def run : Nat → Network → Network
  | 0, w => w
  | fuel + 1, w =>
    match ((List.range w.parties.size).foldl advance w).carryAll with
    | (true, w) => run fuel w
    | (false, w) => w

/-- The rounds that a network gets to come to rest. -/
def patience : Nat := 1000

def settle (w : Network) : Network := run patience w.carryAll.2

/-- Gives up a party that waits for a backend. -/
def giveUp (w : Network) (i : Nat) : Network :=
  match w.parties[i]? with
  | some (.service s) =>
    (w.node? s.node).elim w fun n =>
      let (c, n) := (w.current s).timeOut n
      w.keep i { s with connection := c } n
  | some (.notice m) =>
    if m.talk.value?.isSome then w
    else
      ((w.propagationFailed m.node m.hash).hangUp m.near).withParty i
        (.notice { m with talk := Exchange.fail (.registration "timed out") })
  | _ => w

/-- Waits beyond every time limit. -/
def elapse (w : Network) : Network := ((List.range w.parties.size).foldl giveUp w.settle).settle

/-- Somebody at an end says what a dialogue says, and the network comes to rest. -/
def say {α : Type} (w : Network) (e : Nat) (d : Dialogue α) : Dialogue α × Network :=
  let (d, l) := d.run (w.link e)
  (d, (w.withLink e l).settle)

/-- A dialogue whose answer does not come waits beyond the time limits. -/
def converse {α : Type} (w : Network) (e : Nat) (d : Dialogue α) : Dialogue α × Network :=
  let (d, w) := w.say e d
  let (d, w) := w.say e d
  if d.value?.isSome then (d, w) else w.elapse.say e d

/-- Dials a place, offers to go without a password, and gives the version and the method that come
back: a way to see that a node is there. -/
def probe (w : Network) (place : Endpoint) : Except Failure Bytes := do
  let (dialled, w) := w.dial .loopback place 0
  let (_, _, e) ← dialled
  Exchange.result (w.converse e (do
    Exchange.send [Socks.protocolVersion, 1, Socks.Method.none]
    Exchange.readExact 2 : Exchange Bytes)).1

/-- What the node at the other end of a cable has come to with it. -/
def outcome? (w : Network) (e : Nat) : Option (Except Failure Unit) :=
  w.parties.toList.findSome? fun (p : Party) =>
    match p with
    | .service s => if s.near = other e then s.connection.result? else none
    | _ => none

/-- The association that is bound at a socket, with its place among the parties. -/
def association? (w : Network) (bound : Ip.Socket) : Option (Nat × Service × Association) :=
  (List.range w.parties.size).findSome? fun (i : Nat) =>
    match w.parties[i]? with
    | some (.service s) =>
      match s.connection.stage with
      | .associated at_ a => if at_ = bound then some (i, s, a) else none
      | _ => none
    | _ => none

/-- A datagram arrives at an association. -/
def deliver (w : Network) (bound : Ip.Socket) (sender : Ip.Zoned) (datagram : Bytes) : Fate × Network :=
  match w.association? bound with
  | none => (.ignored, w)
  | some (i, s, a) =>
    let (found, w) := match a.asks? sender datagram, w.node? s.node with
      | some host, some n =>
        let (found, n) := n.lookup w.names w.now host
        (found, w.withNode s.node n)
      | _, _ => (.ok [], w)
    let (fate, a) := a.arrive (fun _ => found) sender datagram
    (fate, w.withParty i
      (.service { s with connection := { s.connection with stage := .associated bound a } }))

/-- A datagram for an echo goes through an association, and the answer comes back. -/
def deliverEchoed (w : Network) (bound sender echo : Ip.Socket) (payload : Bytes) :
    Option (Socks.Address × Bytes) × Network :=
  match Socks.Packet.encode (.ip echo) payload with
  | .error _ => (none, w)
  | .ok packet =>
    match w.deliver bound (.ofSocket sender) packet with
    | (.sent there, w) =>
      match w.deliver bound there.target there.payload with
      | (.sent back, w) => ((Socks.Packet.decode back.payload).toOption, w)
      | (_, w) => (none, w)
    | (_, w) => (none, w)

end Network

end SocksChain
