import SocksChain.Store.ByAge
import SocksChain.Store.ByUse

/-!
A registry of two tiers. Everything stored goes into the hot tier, and into the cold tier, where
there is one, for at least the cold lifetime. A value found only in the cold tier comes back into
the hot one.

As in the hot tier alone, the clock is read once for a whole operation, whichever tiers it touches;
a lifetime can always be added to a time; and of entries that were inserted into the hot tier at one
time, the last one stays longest. So what is stored is there at once, even if the tier is full of
entries of the same age.
-/

namespace SocksChain.Store

/-- Sizes and lifetimes, in milliseconds. -/
structure Policy where
  hotCapacity : Nat := 4096
  defaultTtl : Nat := 120000
  /-- Without a capacity there is no cold tier. -/
  coldCapacity : Option Nat := none
  coldTtl : Nat := 3600000
deriving DecidableEq

structure Counts where
  hits : Nat := 0
  misses : Nat := 0
  computed : Nat := 0
  evictions : Nat := 0
deriving DecidableEq

structure Registry (K V : Type) where
  policy : Policy
  hot : ByAge K V
  cold : Option (ByUse K V)
  counts : Counts := {}
deriving DecidableEq

/-- A value, and whether it had to be computed. -/
structure Computed (V : Type) where
  value : V
  inserted : Bool
deriving DecidableEq

namespace Registry

variable {K V : Type} [DecidableEq K]

def ofPolicy (p : Policy) : Registry K V :=
  { policy := p, hot := .ofCapacity p.hotCapacity, cold := p.coldCapacity.map .ofCapacity }

/-- How many entries the hot tier holds. -/
def size (r : Registry K V) : Nat := r.hot.size

def isEmpty (r : Registry K V) : Bool := r.hot.table.isEmpty

def hit (r : Registry K V) : Registry K V :=
  { r with counts := { r.counts with hits := r.counts.hits + 1 } }

def miss (r : Registry K V) : Registry K V :=
  { r with counts := { r.counts with misses := r.counts.misses + 1 } }

/-- Looks a key up in the cold tier only. -/
def getCold (r : Registry K V) (now : Nat) (k : K) : Option (Entry V) × Registry K V :=
  match r.cold with
  | none => (none, r)
  | some c => ((c.get now k).1, { r with cold := some (c.get now k).2 })

def putCold (r : Registry K V) (now : Nat) (k : K) (v : V) (ttl : Nat) : Registry K V :=
  { r with cold := r.cold.map fun c => c.put now k v (max r.policy.coldTtl ttl) }

/-- The live value of a key. A value from the cold tier is stored in the hot one for what remains
of its lifetime, but no longer than the default. -/
def get (r : Registry K V) (now : Nat) (k : K) : Option V × Registry K V :=
  match r.hot.get now k with
  | (some e, hot) => (some e.value, { r with hot := hot }.hit)
  | (none, hot) =>
    match { r with hot := hot }.getCold now k with
    | (some e, r) =>
      let ttl := min (e.remaining now) r.policy.defaultTtl
      (some e.value, { r with hot := r.hot.put now k e.value ttl }.hit)
    | (none, r) => (none, r.miss)

/-- The live value of a key in either tier, or else the given one, which is then stored. -/
def entry (r : Registry K V) (now : Nat) (k : K) (v : V) (ttl : Nat) :
    Computed V × Registry K V :=
  match r.hot.peek now k with
  | some e => (⟨e.value, false⟩, r.hit)
  | none =>
    match r.getCold now k with
    | (some e, r) => (⟨e.value, false⟩, { r with hot := r.hot.put now k e.value ttl }.hit)
    | (none, r) =>
      let r := { r with hot := r.hot.put now k v ttl }
      let r := { r with counts := { r.counts with computed := r.counts.computed + 1 } }
      (⟨v, true⟩, r.putCold now k v ttl)

def put (r : Registry K V) (now : Nat) (k : K) (v : V) (ttl : Nat) : Registry K V :=
  let r := r.putCold now k v ttl
  { r with hot := r.hot.put now k v ttl }

/-- Removes a key from both tiers and gives what the hot one held, or else the cold one. -/
def remove (r : Registry K V) (k : K) : Option V × Registry K V :=
  let (v, hot) := r.hot.remove k
  match r.cold with
  | none => (v, { r with hot := hot })
  | some c =>
    let (w, c) := c.remove k
    (v.or w, { r with hot := hot, cold := some c })

/-- Drops what is expired from both tiers and counts it. -/
def purge (r : Registry K V) (now : Nat) : Nat × Registry K V :=
  let (n, hot) := r.hot.purge now
  let (m, cold) := match r.cold with
    | none => (0, none)
    | some c => ((c.purge now).1, some (c.purge now).2)
  (n + m, { r with
    hot := hot
    cold := cold
    counts := { r.counts with evictions := r.counts.evictions + (n + m) } })

end Registry

end SocksChain.Store
