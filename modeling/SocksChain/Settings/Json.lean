import SocksChain.Json.Reader
import SocksChain.Json.Record
import SocksChain.Json.Writer
import SocksChain.Settings.Basic

/-!
Settings as JSON. Most records may leave out any field, which then has its default.
-/

namespace SocksChain

open Json (optional? list? text? bool? word? count? fields? ofOption ofMembers)

def RouteMode.name : RouteMode → String
  | direct => "direct"
  | backend => "backend"

def RouteMode.ofName? (s : String) : Option RouteMode :=
  [direct, backend].find? fun m => m.name = s

def Verbosity.toJson (v : Verbosity) : Json := .ofText v.name

namespace Credentials

def toJson (c : Credentials) : Json :=
  ofMembers [("username", .ofText c.username), ("password", .ofText c.password)]

def ofJson? (v : Json) : Option Credentials := do
  let f ← fields? ["username", "password"] false v
  return ⟨← f.need "username" text?, ← f.need "password" text?⟩

end Credentials

namespace CipherSettings

def toJson (c : CipherSettings) : Json :=
  ofMembers [("name", .ofText c.name), ("secret", .ofText c.secret)]

def ofJson? (v : Json) : Option CipherSettings := do
  let f ← fields? ["name", "secret"] false v
  return ⟨← f.need "name" text?, ← f.need "secret" text?⟩

end CipherSettings

namespace Endpoint

def toJson (e : Endpoint) : Json :=
  ofMembers [("host", .ofText e.host), ("port", .ofNat e.port.toNat)]

def ofJson? (v : Json) : Option Endpoint := do
  let f ← fields? ["host", "port"] false v
  return ⟨← f.need "host" text?, ← f.need "port" word?⟩

end Endpoint

namespace Backend

def toJson (b : Backend) : Json :=
  ofMembers [("host", .ofText b.endpoint.host), ("port", .ofNat b.endpoint.port.toNat),
    ("credentials", ofOption Credentials.toJson b.credentials)]

def fieldNames : List String := ["host", "port", "credentials"]

/-- A backend is an object. Its unknown members are passed over, but they must be values that
could be kept, with at most `depth` containers inside one another. -/
def ofJson? (depth : Nat) (v : Json) : Option Backend :=
  match v with
  | .object members => do
    let f ← fields? fieldNames true v
    let unknown := members.filter fun m => !fieldNames.contains (m.1.getD "")
    if !Json.retainsMembers depth unknown then none
    let host ← f.need "host" text?
    let port ← f.need "port" word?
    return ⟨⟨host, port⟩, ← f.get "credentials" none (optional? Credentials.ofJson?)⟩
  | _ => none

/-- How many containers may stand inside a text that is nothing but a backend. -/
def textDepth : Nat := 126

def ofText? (s : String) : Option Backend := (Json.read? s).bind (ofJson? textDepth)

end Backend

namespace FrontSettings

def fieldNames : List String :=
  ["bind_address", "bind_port", "authentication", "cipher", "accept_fake_registration",
    "white_list_ttl_secs"]

def toJson (s : FrontSettings) : Json :=
  ofMembers (fieldNames.zip
    [.ofText s.host, .ofNat s.port.toNat, ofOption Credentials.toJson s.credentials,
      ofOption CipherSettings.toJson s.cipher, .bool s.registrations, .ofNat s.whiteListSeconds])

def ofJson? (v : Json) : Option FrontSettings := do
  let d : FrontSettings := {}
  let f ← fields? fieldNames true v
  return {
    host := ← f.get "bind_address" d.host text?
    port := ← f.get "bind_port" d.port word?
    credentials := ← f.get "authentication" d.credentials (optional? Credentials.ofJson?)
    cipher := ← f.get "cipher" d.cipher (optional? CipherSettings.ofJson?)
    registrations := ← f.get "accept_fake_registration" d.registrations bool?
    whiteListSeconds := ← f.get "white_list_ttl_secs" d.whiteListSeconds count? }

end FrontSettings

namespace DatagramBackend

def toJson (b : DatagramBackend) : Json :=
  ofMembers [("endpoint", b.endpoint.toJson), ("cipher", b.cipher.toJson)]

def ofJson? (v : Json) : Option DatagramBackend := do
  let f ← fields? ["endpoint", "cipher"] false v
  return ⟨← f.need "endpoint" Endpoint.ofJson?, ← f.need "cipher" CipherSettings.ofJson?⟩

end DatagramBackend

namespace RouteSettings

def fieldNames : List String :=
  ["route_mode", "backends", "cipher", "connect_timeout_ms", "udp_backend",
    "propagate_fake_endpoints"]

def toJson (s : RouteSettings) : Json :=
  ofMembers (fieldNames.zip
    [.ofText s.mode.name, .array (s.backends.map Backend.toJson),
      ofOption CipherSettings.toJson s.cipher, .ofNat s.timeoutMs,
      ofOption DatagramBackend.toJson s.datagrams, .bool s.propagates])

/-- How many containers may stand inside a backend of the settings. -/
def backendDepth : Nat := 123

def ofJson? (v : Json) : Option RouteSettings := do
  let d : RouteSettings := {}
  let f ← fields? fieldNames true v
  return {
    mode := ← f.get "route_mode" d.mode (Json.choice? RouteMode.ofName?)
    backends := ← f.get "backends" d.backends (list? (Backend.ofJson? backendDepth))
    cipher := ← f.get "cipher" d.cipher (optional? CipherSettings.ofJson?)
    timeoutMs := ← f.get "connect_timeout_ms" d.timeoutMs count?
    datagrams := ← f.get "udp_backend" d.datagrams (optional? DatagramBackend.ofJson?)
    propagates := ← f.get "propagate_fake_endpoints" d.propagates bool? }

end RouteSettings

/-- The members of a list in order, each of them once. -/
def distinct {α : Type} [DecidableEq α] : List α → List α
  | [] => []
  | a :: rest => a :: (distinct rest).filter (· ≠ a)

namespace AliasPolicy

def fieldNames : List String :=
  ["host_suffix", "fake_ips", "fake_ports", "obfuscation_ports", "registration_timeout_ms",
    "ttl_secs"]

/-- The hidden addresses are written in the order of their text, the hidden ports by number. -/
def toJson (p : AliasPolicy) : Json :=
  ofMembers (fieldNames.zip
    [.ofText p.suffix,
      .array (((p.hiddenIps.map Ip.Address.toText).mergeSort fun a b => decide (a ≤ b)).map .ofText),
      .array (((p.hiddenPorts.map UInt16.toNat).mergeSort fun a b => decide (a ≤ b)).map .ofNat),
      .array (p.ports.map fun w => .ofNat w.toNat), .ofNat p.propagationTimeout,
      .ofNat p.ttlSeconds])

def ipOfJson? (v : Json) : Option Ip.Address := v.text?.bind Ip.Address.ofText?

def ofJson? (v : Json) : Option AliasPolicy := do
  let d : AliasPolicy := {}
  let f ← fields? fieldNames true v
  return {
    suffix := ← f.get "host_suffix" d.suffix text?
    hiddenIps := distinct (← f.get "fake_ips" d.hiddenIps (list? ipOfJson?))
    hiddenPorts := distinct (← f.get "fake_ports" d.hiddenPorts (list? word?))
    ports := ← f.get "obfuscation_ports" d.ports (list? word?)
    propagationTimeout := ← f.get "registration_timeout_ms" d.propagationTimeout count?
    ttlSeconds := ← f.get "ttl_secs" d.ttlSeconds count? }

end AliasPolicy

namespace StoreSettings

def fieldNames : List String :=
  ["hot_capacity", "ttl_secs", "cold_capacity", "cold_ttl_secs", "sweep_interval_secs"]

def toJson (s : StoreSettings) : Json :=
  ofMembers (fieldNames.zip
    [.ofNat s.hotCapacity, .ofNat s.ttlSeconds, ofOption .ofNat s.coldCapacity,
      .ofNat s.coldTtlSeconds, .ofNat s.sweepSeconds])

def ofJson? (v : Json) : Option StoreSettings := do
  let d : StoreSettings := {}
  let f ← fields? fieldNames true v
  return {
    hotCapacity := ← f.get "hot_capacity" d.hotCapacity count?
    ttlSeconds := ← f.get "ttl_secs" d.ttlSeconds count?
    coldCapacity := ← f.get "cold_capacity" d.coldCapacity (optional? count?)
    coldTtlSeconds := ← f.get "cold_ttl_secs" d.coldTtlSeconds count?
    sweepSeconds := ← f.get "sweep_interval_secs" d.sweepSeconds count? }

end StoreSettings

namespace Settings

def fieldNames : List String := ["proxy_policy", "upstream", "fake_endpoint", "cache", "log_level"]

def toJson (s : Settings) : Json :=
  ofMembers (fieldNames.zip
    [s.front.toJson, s.route.toJson, s.aliases.toJson, s.store.toJson, s.verbosity.toJson])

def ofJson? (v : Json) : Option Settings := do
  let d : Settings := {}
  let f ← fields? fieldNames true v
  return {
    front := ← f.get "proxy_policy" d.front FrontSettings.ofJson?
    route := ← f.get "upstream" d.route RouteSettings.ofJson?
    aliases := ← f.get "fake_endpoint" d.aliases AliasPolicy.ofJson?
    store := ← f.get "cache" d.store StoreSettings.ofJson?
    verbosity := ← f.get "log_level" d.verbosity (Json.choice? Verbosity.ofName?) }

/-- The settings in a text, if they are well formed and can work. -/
def ofText (s : String) : Except Failure Settings :=
  match (Json.read? s).bind ofJson? with
  | some settings => settings.validate
  | none => .error (.config .malformed)

/-- The settings in a file, which is none if it could not be opened. -/
def ofFile (contents : Option Bytes) : Except Failure Settings :=
  match contents.bind Bytes.toText? with
  | some s => ofText s
  | none => .error (.config .unreadable)

end Settings

end SocksChain
