import SocksChain.Store.Registry

/-!
A sweeper purges a registry at fixed intervals of its own clock.
-/

namespace SocksChain.Store

structure Sweeper where
  interval : Nat
  /-- How long ago the last interval ended. -/
  elapsed : Nat := 0
deriving DecidableEq

namespace Sweeper

variable {K V : Type} [DecidableEq K]

/-- How many intervals end while `ms` pass, and the sweeper after them. -/
def pass (s : Sweeper) (ms : Nat) : Nat × Sweeper :=
  ((s.elapsed + ms) / s.interval, { s with elapsed := (s.elapsed + ms) % s.interval })

/-- Purges once for every interval that has ended. -/
def sweep (due : Nat) (now : Nat) (r : Registry K V) : Registry K V :=
  (List.range due).foldl (fun r _ => (r.purge now).2) r

/-- Lets time pass for every sweeper of a registry, which is purged as it stands at `now`. -/
def passAll (ms now : Nat) : List Sweeper → Registry K V → List Sweeper × Registry K V
  | [], r => ([], r)
  | s :: rest, r =>
    let (due, s) := s.pass ms
    let (rest, r) := passAll ms now rest (sweep due now r)
    (s :: rest, r)

end Sweeper

end SocksChain.Store
