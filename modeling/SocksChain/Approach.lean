import SocksChain.Aliases
import SocksChain.Routing
import SocksChain.Settings.Basic
import SocksChain.Socks.Requester

/-!
How a node gets to a destination: what it dials, the cipher it speaks there, and what has to be
said before the connection can carry anything. A destination that a backend must not see is asked
for by its alias, and then somebody may have to be told what the alias stands for.
-/

namespace SocksChain

open Channel

structure Approach where
  place : Endpoint
  cipher : Option CipherSettings
  /-- What is asked for at that place. -/
  requested : Endpoint
  talk : Exchange Unit

namespace Approach

def direct (destination : Endpoint) : Approach := ⟨destination, none, destination, pure ()⟩

def through (cipher : Option CipherSettings) (b : Backend) (target : Endpoint) : Approach :=
  ⟨b.endpoint, cipher, target, do let _ ← Socks.Requester.connect b target⟩

/-- Tells a backend what an alias stands for. -/
def registration (cipher : Option CipherSettings) (b : Backend) (real : Endpoint) : Approach :=
  ⟨b.endpoint, cipher, real, Socks.Requester.register b real⟩

def timedOut (a : Approach) (timeoutMs : Nat) : Failure :=
  .connectTimeout a.place.toText timeoutMs

end Approach

/-- Puts the cipher of a hop on a link, if there is one. -/
def Channel.Link.secured (l : Link) (cipher : Option CipherSettings) (e : Cipher.Entropy) :
    Except Failure Link :=
  match cipher with
  | none => .ok l
  | some c => (Cipher.Pair.ofName c.name c.secret false).map fun pair => l.ciphered pair e

/-- An approach, and who has to be told what an alias stands for. -/
structure Plan (S : Type) where
  approach : Approach
  notice : Option (S × Substitution) := none

namespace Plan

variable {S : Type}

/-- Only a collaborator can be told of an alias, so without one names travel as they are. -/
def via (aliases : Aliases) (cipher : Option CipherSettings) (now draw : Nat)
    (destination : Endpoint) (hop : Hop S) : Plan S × Aliases :=
  match hop.support with
  | none => (⟨.through cipher hop.backend destination, none⟩, aliases)
  | some support =>
    if aliases.policy.hides destination then
      let (s, aliases) := aliases.substitute now draw destination
      (⟨.through cipher hop.backend s.standIn, if s.propagates then some (support, s) else none⟩,
        aliases)
    else (⟨.through cipher hop.backend destination, none⟩, aliases)

def ofRoute (aliases : Aliases) (cipher : Option CipherSettings) (now draw : Nat)
    (destination : Endpoint) : Option (Route S) → Except Failure (Plan S) × Aliases
  | none => (.error (.noRoute destination.toText), aliases)
  | some .direct => (.ok ⟨.direct destination, none⟩, aliases)
  | some (.via hop) =>
    let (plan, aliases) := via aliases cipher now draw destination hop
    (.ok plan, aliases)

end Plan

end SocksChain
