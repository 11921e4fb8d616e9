import SocksChain.Alias
import SocksChain.Dialling
import SocksChain.Store.Registry

/-!
What a node knows of hosts and peers: the addresses of a host, which may be an alias that the node's
own registry restores, and the peers that have proved themselves lately and need not do so again.
-/

namespace SocksChain

structure Directory where
  suffix : String
  /-- The lifetime of a recorded mapping, in milliseconds. -/
  ttl : Nat
  whiteList : Store.Registry Ip.Address Unit
  whiteListTtl : Nat
deriving DecidableEq

namespace Directory

def whiteListCapacity : Nat := 4096

def defaultWhiteListTtl : Nat := 300000

def ofSuffix (suffix : String) (ttl : Nat) (whiteListTtl : Nat) : Directory :=
  { suffix, ttl, whiteListTtl
    whiteList := .ofPolicy { hotCapacity := whiteListCapacity, defaultTtl := defaultWhiteListTtl } }

/-- Records what an alias stands for. -/
def record (d : Directory) (r : Store.Registry UInt64 String) (now : Nat) (hash : UInt64)
    (real : String) : Store.Registry UInt64 String :=
  r.put now hash real d.ttl

/-- The destination behind an alias. -/
def real (d : Directory) (r : Store.Registry UInt64 String) (now : Nat) (host : String) :
    Option Endpoint × Store.Registry UInt64 String :=
  match Alias.hash? d.suffix host with
  | none => (none, r)
  | some hash => ((r.get now hash).1.bind Endpoint.ofText?, (r.get now hash).2)

/-- The addresses of a host, or of the destination it is an alias of. -/
def resolve (d : Directory) (names : Names) (r : Store.Registry UInt64 String) (now : Nat)
    (host : String) : Except IoError (List Ip.Address) × Store.Registry UInt64 String :=
  let (real, r) := d.real r now host
  let place := real.getD ⟨host, 0⟩
  (match place.ip? with
    | some ip => .ok [ip]
    | none =>
      match sockets names place.host place.port with
      | .error e => .error e
      | .ok [] => .error ⟨.notFound, some ("no addresses for " ++ place.host)⟩
      | .ok found => .ok (found.map fun x => x.socket.ip), r)

def enlist (d : Directory) (now : Nat) (peer : Ip.Address) : Directory :=
  { d with whiteList := d.whiteList.put now peer () d.whiteListTtl }

def isEnlisted (d : Directory) (now : Nat) (peer : Ip.Address) : Bool × Directory :=
  let (found, whiteList) := d.whiteList.get now peer
  (found.isSome, { d with whiteList := whiteList })

end Directory

end SocksChain
