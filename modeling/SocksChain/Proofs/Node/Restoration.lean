import SocksChain.Node
import SocksChain.Association
import SocksChain.Proofs.Aliases.Agreement
import SocksChain.Proofs.Aliases.Provenance

/-!
Where a node takes what is meant for an alias. A connection is restored to the destination behind
the alias, address and port. A datagram is not: looking up the alias gives addresses only, so the
datagram goes to the address behind the alias and to the port of the alias, which is one of those
that hide the real one.
-/

namespace SocksChain

/-- An alias of an address resolves to that address. -/
theorem Directory.resolve_of_real {d : Directory} {r : Store.Registry UInt64 String} {now : Nat}
    {host : String} {real : Endpoint} {ip : Ip.Address} (hr : (d.real r now host).1 = some real)
    (hip : real.ip? = some ip) (names : Names) : (d.resolve names r now host).1 = .ok [ip] := by
  simp only [resolve, hr, Option.getD_some, hip]

namespace Node

variable {n : Node} {now : Nat} {host : String} {port : UInt16} {real : Endpoint} {ip : Ip.Address}

/-- The directory of a node looks for the aliases that the node hands out. -/
theorem suffix_of_ofSettings {s : Settings} (h : ofSettings s = .ok n) :
    n.directory.suffix = n.aliases.policy.suffix := by
  unfold ofSettings at h
  match hv : s.validate with
  | .error f =>
    rw [hv] at h
    cases h
  | .ok s' =>
    rw [hv] at h
    cases h
    rfl

/-- Where a node sends a datagram for an address. -/
def datagramTarget (n : Node) (names : Names) (now : Nat) (address : Socks.Address) :
    Except IoError Ip.Socket :=
  Association.destination (fun host => (n.lookup names now host).1) address

/-- Where a node connects to for an address, if that is known without a lookup. -/
def connectionTarget (n : Node) (now : Nat) (address : Socks.Address) : Option Ip.Socket :=
  (n.aliases.restore now address.toEndpoint).1.socket?

theorem datagramTarget_of_alias (hs : n.directory.suffix = n.aliases.policy.suffix)
    (hreal : (n.aliases.resolve now ⟨host, port⟩).1 = some real) (hip : real.ip? = some ip)
    (names : Names) : n.datagramTarget names now (.domain host port) = .ok ⟨ip, port⟩ := by
  have hdir : (n.directory.real n.aliases.registry now host).1 = some real :=
    (congrArg Prod.fst (Directory.real_eq_resolve now hs ⟨host, port⟩)).trans hreal
  have hlookup : (n.lookup names now host).1 = .ok [ip] :=
    Directory.resolve_of_real hdir hip names
  simp only [datagramTarget, Association.destination, hlookup]

theorem connectionTarget_of_alias (hreal : (n.aliases.resolve now ⟨host, port⟩).1 = some real)
    (hip : real.ip? = some ip) :
    n.connectionTarget now (.domain host port) = some ⟨ip, real.port⟩ := by
  have hrestore : (n.aliases.restore now ⟨host, port⟩).1 = real := by
    rw [Aliases.restore, hreal, Option.getD_some]
  show (n.aliases.restore now ⟨host, port⟩).1.socket? = _
  rw [hrestore, Endpoint.socket?, hip, Option.map_some]

/-- **A datagram keeps the port of its alias.** Whatever the registry holds: where an alias stands
for an IP address, a connection and a datagram for it go to that address, the connection to the
port behind the alias and the datagram to the port of the alias. So they go to the same place
exactly if the two ports are the same. -/
theorem targets_agree_iff (hs : n.directory.suffix = n.aliases.policy.suffix)
    (hreal : (n.aliases.resolve now ⟨host, port⟩).1 = some real) (hip : real.ip? = some ip)
    (names : Names) :
    let address := Socks.Address.domain host port
    n.datagramTarget names now address = .ok ⟨ip, port⟩ ∧
      n.connectionTarget now address = some ⟨ip, real.port⟩ ∧
      (n.connectionTarget now address = (n.datagramTarget names now address).toOption ↔
        port = real.port) := by
  intro address
  have hd := datagramTarget_of_alias hs hreal hip names
  have hc := connectionTarget_of_alias hreal hip
  refine ⟨hd, hc, ?_⟩
  rw [hd, hc]
  constructor
  · intro h
    have hp : (⟨ip, real.port⟩ : Ip.Socket) = ⟨ip, port⟩ := Option.some.inj h
    exact (congrArg Ip.Socket.port hp).symm
  · rintro rfl
    rfl

/-- What a fresh node has registered stands behind the alias of its hash, whatever the port. -/
theorem exists_registered {real : Endpoint} (hr : Endpoint.ofText? real.toText = some real) :
    ∃ n, ofSettings {} = .ok n ∧
      let n := n.register 0 real
      n.directory.suffix = n.aliases.policy.suffix ∧
        ∀ port, let e : Endpoint := ⟨Alias.host n.aliases.policy.suffix real.hash, port⟩
          (n.aliases.resolve 0 e).1 = some real := by
  obtain ⟨n, hn⟩ : ∃ n, ofSettings {} = .ok n := ⟨_, rfl⟩
  have ht : 0 < n.aliases.policy.ttl := by
    cases hn
    decide
  have hs : n.directory.suffix = n.aliases.policy.suffix := suffix_of_ofSettings hn
  refine ⟨n, hn, hs, fun port => ?_⟩
  show ((n.register 0 real).aliases.resolve 0 _).1 = some real
  have hk : (n.register 0 real).aliases.known? 0 real.hash = some real.toText :=
    Aliases.known?_register _ _ ht
  unfold Aliases.known? at hk
  rw [Store.Registry.get_fst] at hk
  rw [Aliases.resolve_fst, Alias.hash?_host, Option.bind_some, hk, Option.bind_some, hr]

/-- The alias of a name server that has the port of the name server. -/
theorem targets_agree_on_own_port :
    let real : Endpoint := ⟨"127.0.0.1", 53⟩
    ∃ n, ofSettings {} = .ok n ∧
      let n := n.register 0 real
      let address := Socks.Address.domain (Alias.host n.aliases.policy.suffix real.hash) 53
      n.directory.suffix = n.aliases.policy.suffix ∧
        (n.aliases.resolve 0 address.toEndpoint).1 = some real ∧ real.ip? = some .loopback ∧
        ∀ names, n.connectionTarget 0 address = (n.datagramTarget names 0 address).toOption := by
  intro real
  have hip : real.ip? = some .loopback := by cbv
  obtain ⟨n, hn, hs, hreal⟩ :=
    exists_registered (by cbv : Endpoint.ofText? real.toText = some real)
  refine ⟨n, hn, hs, hreal 53, hip, fun names => ?_⟩
  obtain ⟨-, -, hiff⟩ := targets_agree_iff hs (hreal 53) hip names
  exact hiff.mpr rfl

/-- The alias of a name server as it is handed out: a connection gets to the name server, and a
datagram to another port of the same machine. -/
theorem datagram_misses_the_port :
    let real : Endpoint := ⟨"127.0.0.1", 53⟩
    ∃ n, ofSettings {} = .ok n ∧
      let n := n.register 0 real
      let address := Socks.Address.domain (Alias.host n.aliases.policy.suffix real.hash) 443
      n.directory.suffix = n.aliases.policy.suffix ∧
        (n.aliases.resolve 0 address.toEndpoint).1 = some real ∧ real.ip? = some .loopback ∧
        n.connectionTarget 0 address = some ⟨.loopback, 53⟩ ∧
        ∀ names, n.datagramTarget names 0 address = .ok ⟨.loopback, 443⟩ := by
  intro real
  have hip : real.ip? = some .loopback := by cbv
  obtain ⟨n, hn, hs, hreal⟩ :=
    exists_registered (by cbv : Endpoint.ofText? real.toText = some real)
  exact ⟨n, hn, hs, hreal 443, hip, connectionTarget_of_alias (hreal 443) hip,
    datagramTarget_of_alias hs (hreal 443) hip⟩

end Node

end SocksChain
