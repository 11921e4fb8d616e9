import SocksChain.Ip.Address
import SocksChain.Store.Registry

/-!
Which client a connection was opened for. A link makes both ends of an outbound connection lead to
the origin of the inbound one, so that an address leads through any number of hops to the client
at their start. An address without a link is its own origin.
-/

namespace SocksChain

structure Origins where
  links : Store.Registry Ip.Zoned Ip.Zoned
deriving DecidableEq

namespace Origins

def ofPolicy (p : Store.Policy) : Origins := ⟨.ofPolicy p⟩

def origin (o : Origins) (now : Nat) (address : Ip.Zoned) : Ip.Zoned × Origins :=
  let (found, links) := o.links.get now address
  (found.getD address, ⟨links⟩)

/-- Links the connection from `near` to `far`, which was opened for `inbound`. -/
def link (o : Origins) (now : Nat) (inbound near far : Ip.Zoned) : Origins :=
  let (origin, o) := o.origin now inbound
  let ttl := o.links.policy.defaultTtl
  ⟨(o.links.put now near origin ttl).put now far origin ttl⟩

end Origins

end SocksChain
