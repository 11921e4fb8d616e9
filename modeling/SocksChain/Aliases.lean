import SocksChain.Alias
import SocksChain.Store.Registry

/-!
The aliases that a node hands to backends in place of destinations, and restores when they come
back. A registry maps the hash of every alias to the text of its destination. Whoever creates a
mapping has it propagated to the backend that will be asked for the alias; a mapping whose last
propagation failed is propagated again at its next use.
-/

namespace SocksChain

/-- How destinations are replaced. -/
structure AliasPolicy where
  suffix : String := ".fake.internal"
  hiddenIps : List Ip.Address := []
  hiddenPorts : List UInt16 := []
  /-- The ports that an alias may have. -/
  ports : List UInt16 := [443, 3306]
  /-- In milliseconds. -/
  propagationTimeout : Nat := 5000
  ttlSeconds : Nat := 600
deriving DecidableEq

structure Aliases where
  policy : AliasPolicy
  registry : Store.Registry UInt64 String
  /-- The hashes whose last propagation failed. -/
  unpropagated : List UInt64 := []
deriving DecidableEq

structure Substitution where
  hash : UInt64
  /-- What the backend is asked for. -/
  standIn : Endpoint
  real : String
  /-- Whether the mapping has to be propagated now. -/
  propagates : Bool
deriving DecidableEq

namespace AliasPolicy

def ttl (p : AliasPolicy) : Nat := p.ttlSeconds * 1000

def defaultPort : UInt16 := 443

/-- The port that a random draw picks. -/
def port (p : AliasPolicy) (draw : Nat) : UInt16 :=
  p.ports.getD (draw % p.ports.length) defaultPort

/-- Host names are replaced, and so are hidden addresses and everything on a hidden port. -/
def hides (p : AliasPolicy) (destination : Endpoint) : Bool :=
  (match destination.ip? with
    | some ip => p.hiddenIps.contains ip
    | none => true) || p.hiddenPorts.contains destination.port

def isAlias (p : AliasPolicy) (host : String) : Bool := (Alias.hash? p.suffix host).isSome

end AliasPolicy

namespace Aliases

/-- Replaces a destination. The mapping is kept as it is when it is still known. -/
def substitute (a : Aliases) (now draw : Nat) (destination : Endpoint) : Substitution × Aliases :=
  let real := destination.toText
  let hash := Endpoint.hashText real
  let (known, registry) := a.registry.entry now hash real a.policy.ttl
  let again := !known.inserted && known.value = real && a.unpropagated.contains hash
  let propagates := known.inserted || again
  (⟨hash, ⟨Alias.host a.policy.suffix hash, a.policy.port draw⟩, real, propagates⟩,
    { a with
      registry := registry
      unpropagated := if propagates then a.unpropagated.filter (· ≠ hash) else a.unpropagated })

/-- Marks a hash whose propagation has failed or was given up. -/
def propagationFailed (a : Aliases) (hash : UInt64) : Aliases :=
  { a with unpropagated := hash :: a.unpropagated.filter (· ≠ hash) }

/-- Stores a mapping that another node has pushed. Its hash is derived here. -/
def register (a : Aliases) (now : Nat) (real : Endpoint) : UInt64 × Aliases :=
  let hash := Endpoint.hashText real.toText
  (hash, { a with registry := a.registry.put now hash real.toText a.policy.ttl })

/-- The destination behind an alias, if this node knows it. -/
def resolve (a : Aliases) (now : Nat) (e : Endpoint) : Option Endpoint × Aliases :=
  match Alias.hash? a.policy.suffix e.host with
  | none => (none, a)
  | some hash =>
    let (real, registry) := a.registry.get now hash
    (real.bind Endpoint.ofText?, { a with registry := registry })

/-- The destination behind an alias, and any other endpoint as it is. -/
def restore (a : Aliases) (now : Nat) (e : Endpoint) : Endpoint × Aliases :=
  ((a.resolve now e).1.getD e, (a.resolve now e).2)

end Aliases

end SocksChain
