import SocksChain.Approach
import SocksChain.Directory
import SocksChain.Origins
import SocksChain.Socks.Reception
import SocksChain.Tunnel

/-!
A node of a chain: its settings and what it remembers between connections. Its aliases and its
directory share one registry, so what another node has registered is also what a host resolves to.
-/

namespace SocksChain

structure Node where
  settings : Settings
  aliases : Aliases
  directory : Directory
  router : Router Backend
  origins : Origins
  tally : Tally := {}

namespace Node

/-- Refuses settings with which every connection would fail. -/
def ofSettings (s : Settings) : Except Failure Node :=
  s.validate.map fun s =>
    { settings := s
      aliases := { policy := s.aliases, registry := .ofPolicy (s.store.aliasPolicy s.aliases) }
      directory := .ofSuffix s.aliases.suffix s.aliases.ttl s.front.whiteListTtl
      router := .chained s.route.mode s.route.propagates s.route.backends id
      origins := .ofPolicy s.store.linkPolicy }

/-- The negotiation that a client meets. A white-listed peer need not prove itself again. -/
def greet (n : Node) (now : Nat) (peer : Ip.Address) : Socks.Negotiation × Node :=
  let (trusted, directory) := n.directory.isEnlisted now peer
  ({ credentials := n.settings.front.credentials
     trusted := trusted
     registrations := n.settings.front.registrations }, { n with directory := directory })

/-- Remembers a peer that has proved itself just now. -/
def welcome (n : Node) (now : Nat) (peer : Ip.Address) (a : Socks.Admission) : Node :=
  if a.authenticated then { n with directory := n.directory.enlist now peer } else n

/-- Stores what another node says an alias stands for. -/
def register (n : Node) (now : Nat) (real : Endpoint) : Node :=
  { n with aliases := (n.aliases.register now real).2 }

/-- Opens a tunnel: the client's destination is restored if it is an alias, then a way is chosen. -/
def depart (n : Node) (now draw : Nat) (destination : Endpoint) :
    Except Failure (Plan Backend) × Node :=
  let (real, aliases) := n.aliases.restore now destination
  let (route, router) := n.router.route real
  let (plan, aliases) := Plan.ofRoute aliases n.settings.route.cipher now draw real route
  (plan, { n with aliases := aliases, router := router, tally := n.tally.started })

def link (n : Node) (now : Nat) (peer near far : Ip.Socket) : Node :=
  { n with origins := n.origins.link now (.ofSocket peer) (.ofSocket near) (.ofSocket far) }

/-- The addresses of a host. -/
def lookup (n : Node) (names : Names) (now : Nat) (host : String) :
    Except IoError (List Ip.Address) × Node :=
  let (found, registry) := n.directory.resolve names n.aliases.registry now host
  (found, { n with aliases := { n.aliases with registry := registry } })

/-- Whether the alias of a destination's text stands for that text. -/
def knows (n : Node) (now : Nat) (real : String) : Bool :=
  (n.aliases.registry.get now (Endpoint.hashText real)).1 = some real

/-- Whether an address leads to a client. -/
def leads (n : Node) (now : Nat) (address client : Ip.Socket) : Bool :=
  (n.origins.origin now (.ofSocket address)).1 = .ofSocket client

def failed (n : Node) (f : Failure) : Node := { n with tally := n.tally.failed f }

def tunnelEnded (n : Node) (r : Except Failure Relay.Totals) : Node :=
  { n with tally := n.tally.ended r }

def propagationFailed (n : Node) (hash : UInt64) : Node :=
  { n with aliases := n.aliases.propagationFailed hash }

end Node

end SocksChain
