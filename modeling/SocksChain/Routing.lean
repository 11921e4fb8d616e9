import SocksChain.Endpoint

/-!
Which way a connection leaves a node: straight to its destination, or through a backend. Backends
take turns. Each backend may have a collaborator that tells it what the aliases it is asked for
stand for.
-/

namespace SocksChain

inductive RouteMode where
  | direct
  | backend
deriving DecidableEq

/-- A backend and its collaborator. -/
structure Hop (S : Type) where
  backend : Backend
  support : Option S
deriving DecidableEq

inductive Route (S : Type) where
  | direct
  | via (hop : Hop S)
deriving DecidableEq

inductive Router (S : Type) where
  | direct
  /-- The hops in turn, starting with the one numbered `next`. -/
  | rotation (hops : List (Hop S)) (next : Nat)
  | choice (choose : Endpoint → Option (Route S))

namespace Router

variable {S : Type}

/-- The way to a destination, if there is one, and the router after the choice. -/
def route (r : Router S) (destination : Endpoint) : Option (Route S) × Router S :=
  match r with
  | direct => (some .direct, r)
  | choice choose => (choose destination, r)
  | rotation hops next =>
    match hops[next % hops.length]? with
    | none => (none, r)
    | some hop => (some (.via hop), rotation hops (next + 1))

/-- All backends share one collaborator. -/
def shared (mode : RouteMode) (backends : List Backend) (support : Option S) : Router S :=
  match mode with
  | .direct => direct
  | .backend => rotation (backends.map fun b => ⟨b, support⟩) 0

/-- Every backend has a collaborator of its own, if aliases are propagated at all. -/
def chained (mode : RouteMode) (propagates : Bool) (backends : List Backend)
    (supportOf : Backend → S) : Router S :=
  match mode with
  | .direct => direct
  | .backend =>
    rotation (backends.map fun b => ⟨b, if propagates then some (supportOf b) else none⟩) 0

end Router

end SocksChain
