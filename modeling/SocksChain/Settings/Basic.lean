import SocksChain.Aliases
import SocksChain.Cipher.Suite
import SocksChain.Routing
import SocksChain.Verbosity

/-!
The settings of a node, and which of them are refused at once because every connection would fail
later.
-/

namespace SocksChain

/-- The cipher of a hop, as it is configured. -/
structure CipherSettings where
  name : String
  secret : String
deriving DecidableEq

/-- The side that clients see. -/
structure FrontSettings where
  host : String := "127.0.0.1"
  port : UInt16 := 1080
  /-- What clients that are not white-listed have to know. -/
  credentials : Option Credentials := none
  cipher : Option CipherSettings := none
  /-- Whether other nodes may register the destinations of aliases. -/
  registrations : Bool := true
  whiteListSeconds : Nat := 300
deriving DecidableEq

/-- A relay of encrypted datagrams. -/
structure DatagramBackend where
  endpoint : Endpoint
  cipher : CipherSettings
deriving DecidableEq

/-- The side that leads on. -/
structure RouteSettings where
  mode : RouteMode := .direct
  backends : List Backend := []
  cipher : Option CipherSettings := none
  timeoutMs : Nat := 10000
  datagrams : Option DatagramBackend := none
  /-- Whether backends are told what aliases stand for; if not, names travel as they are. -/
  propagates : Bool := true
deriving DecidableEq

structure StoreSettings where
  hotCapacity : Nat := 4096
  ttlSeconds : Nat := 120
  coldCapacity : Option Nat := some 65536
  coldTtlSeconds : Nat := 3600
  sweepSeconds : Nat := 30
deriving DecidableEq

structure Settings where
  front : FrontSettings := {}
  route : RouteSettings := {}
  aliases : AliasPolicy := {}
  store : StoreSettings := {}
  verbosity : Verbosity := .info
deriving DecidableEq

namespace FrontSettings

def endpoint (s : FrontSettings) : Endpoint := ⟨s.host, s.port⟩

def whiteListTtl (s : FrontSettings) : Nat := s.whiteListSeconds * 1000

end FrontSettings

namespace StoreSettings

/-- The registry of aliases. -/
def aliasPolicy (s : StoreSettings) (a : AliasPolicy) : Store.Policy :=
  { hotCapacity := s.hotCapacity
    defaultTtl := a.ttl
    coldCapacity := s.coldCapacity
    coldTtl := s.coldTtlSeconds * 1000 }

/-- The registry of links, which live only as long as the hot tier keeps them. -/
def linkPolicy (s : StoreSettings) : Store.Policy :=
  { hotCapacity := s.hotCapacity
    defaultTtl := s.ttlSeconds * 1000
    coldCapacity := none
    coldTtl := s.coldTtlSeconds * 1000 }

def sweepInterval (s : StoreSettings) : Nat := max s.sweepSeconds 1 * 1000

end StoreSettings

namespace Settings

/-- The ciphers in use, in the order in which they are looked at. -/
def ciphers (s : Settings) : List CipherSettings :=
  s.front.cipher.toList ++ s.route.cipher.toList ++ (s.route.datagrams.map (·.cipher)).toList

/-- The first thing that is wrong with the settings. -/
def fault? (s : Settings) : Option Failure :=
  match s.ciphers.find? fun c => (Cipher.Suite.ofName? c.name).isNone with
  | some c => some (.unsupportedCipher c.name)
  | none =>
    if s.aliases.ports.isEmpty then some (.config .noObfuscationPorts)
    else if s.aliases.suffix.isEmpty then some (.config .noHostSuffix)
    else if s.route.timeoutMs = 0 then some (.config .noConnectTimeout)
    else if s.store.hotCapacity = 0 then some (.config .noHotCapacity)
    else none

def validate (s : Settings) : Except Failure Settings :=
  match s.fault? with
  | some f => .error f
  | none => .ok s

/-- Listens at another place, which is given as `host:port`. -/
def listenAt (s : Settings) (text : String) : Except Failure Settings :=
  match Endpoint.ofText text with
  | .ok e => .ok { s with front := { s.front with host := e.host, port := e.port } }
  | .error cause => .error (.config cause)

end Settings

end SocksChain
