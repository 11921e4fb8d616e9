import SocksChain.Store.ByAge

/-!
The store that forgets by age, as a map whose entries stand in no order. Each value carries the time
at which it was inserted, and what has to go is found by partial selection on these times: so many
of them are brought to the front that none behind them is older.
-/

namespace SocksChain.Store

/-- A value and the time at which it was inserted. -/
structure Stamped (V : Type) where
  value : V
  inserted : Nat
deriving DecidableEq

/-- Brings so many of some keys with their ages to the front, and cuts off the others. -/
abbrev Selection (K : Type) := Nat → List (Nat × K) → List (Nat × K)

/-- What partial selection promises. It says neither in which order the selected ones come, nor
which of several of one age they are. -/
def Selection.Fair {K : Type} (select : Selection K) : Prop :=
  ∀ n ages, n < ages.length → (select n ages).length = n ∧
    ∃ others, (select n ages ++ others).Perm ages ∧
      ∀ a ∈ select n ages, ∀ b ∈ others, a.1 ≤ b.1

structure Shards (K V : Type) where
  capacity : Nat
  /-- In the order in which the map is walked, on which nothing depends. -/
  table : Table K (Stamped V) := []
  capacity_pos : 0 < capacity

namespace Shards

variable {K V : Type}

/-- An empty store for at least one entry. -/
def ofCapacity (n : Nat) : Shards K V := { capacity := max n 1, capacity_pos := max_one_pos n }

def size (s : Shards K V) : Nat := s.table.length

def lowWater (s : Shards K V) : Nat := s.capacity - s.capacity / 8

/-- The keys, each with the time at which its entry was inserted. -/
def ages (s : Shards K V) : List (Nat × K) := s.table.map fun p => (p.2.value.inserted, p.1)

/-- Drops the expired entries and counts them. -/
def purge (s : Shards K V) (now : Nat) : Nat × Shards K V :=
  (s.table.length - (s.table.live now).length, { s with table := s.table.live now })

variable [DecidableEq K]

def remove (s : Shards K V) (k : K) : Option V × Shards K V :=
  ((s.table.lookup? k).map (·.value.value), { s with table := s.table.remove k })

/-- Removes keys one after another, and counts those that were there. -/
def evict (s : Shards K V) (evicted : Nat) : List (Nat × K) → Nat × Shards K V
  | [] => (evicted, s)
  | (_, k) :: rest =>
    match s.remove k with
    | (some _, s) => s.evict (evicted + 1) rest
    | (none, s) => s.evict evicted rest

/-- Where there is too much, drops the expired entries and then the oldest ones, down to the
low-water mark, and counts what has been dropped. -/
def enforce (select : Selection K) (s : Shards K V) (now : Nat) : Nat × Shards K V :=
  if s.size ≤ s.capacity then (0, s)
  else
    let (evicted, s) := s.purge now
    let excess := s.size - s.lowWater
    if excess = 0 then (evicted, s)
    else s.evict evicted (if excess < s.ages.length then select excess s.ages else s.ages)

/-- Inserts an entry in place of one that has the same key, however many there are then. -/
def insert (s : Shards K V) (now : Nat) (k : K) (v : V) (ttl : Nat) : Shards K V :=
  { s with table := s.table.put k (.ofLifetime now ⟨v, now⟩ ttl) }

def put (select : Selection K) (s : Shards K V) (now : Nat) (k : K) (v : V) (ttl : Nat) :
    Shards K V :=
  ((s.insert now k v ttl).enforce select now).2

/-- The live value of a key. An expired one is dropped. -/
def get (s : Shards K V) (now : Nat) (k : K) : Option V × Shards K V :=
  match s.table.lookup? k with
  | none => (none, s)
  | some e =>
    if e.isExpired now then (none, { s with table := s.table.remove k })
    else (some e.value.value, s)

/-- The live value of a key, or else the given one, which is then stored. -/
def getOrPut (select : Selection K) (s : Shards K V) (now : Nat) (k : K) (v : V) (ttl : Nat) :
    (V × Bool) × Shards K V :=
  match s.table.lookup? k with
  | none => ((v, true), s.put select now k v ttl)
  | some e =>
    if e.isExpired now then ((v, true), s.put select now k v ttl)
    else ((e.value.value, false), s)

end Shards

end SocksChain.Store
