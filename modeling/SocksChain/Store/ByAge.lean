import SocksChain.Store.Table

/-!
A store that forgets by age. It holds at most `capacity` entries: an insertion that would make it
exceed that drops the expired entries and then the oldest ones, down to a low-water mark, so that a
full store does not drop something at every insertion.

Three things are simpler here than with a clock that runs on. An operation reads the clock once,
and all that it does is done at that time. A lifetime can always be added to a time. And of entries
that were inserted at one time, the one that was inserted last counts as the youngest, so that it is
never the first one to go. `Shards` does not take sides between entries of one age.
-/

namespace SocksChain.Store

@[ext]
structure ByAge (K V : Type) where
  capacity : Nat
  table : Table K V := []
  capacity_pos : 0 < capacity

instance {K V : Type} [DecidableEq K] [DecidableEq V] : DecidableEq (ByAge K V) := fun _ _ =>
  decidable_of_decidable_of_iff ByAge.ext_iff.symm

namespace ByAge

variable {K V : Type}

/-- An empty store for at least one entry. -/
def ofCapacity (n : Nat) : ByAge K V := { capacity := max n 1, capacity_pos := max_one_pos n }

def size (s : ByAge K V) : Nat := s.table.length

def lowWater (s : ByAge K V) : Nat := s.capacity - s.capacity / 8

def bounded (s : ByAge K V) (now : Nat) : ByAge K V :=
  if s.table.length ≤ s.capacity then s
  else { s with table := (s.table.live now).take s.lowWater }

theorem lowWater_pos (s : ByAge K V) : 0 < s.lowWater := by
  have := s.capacity_pos
  unfold lowWater
  omega

theorem size_bounded_le (s : ByAge K V) (now : Nat) : (s.bounded now).size ≤ s.capacity := by
  unfold bounded size
  split
  · assumption
  · simp only [List.length_take, lowWater]
    omega

variable [DecidableEq K]

def put (s : ByAge K V) (now : Nat) (k : K) (v : V) (ttl : Nat) : ByAge K V :=
  bounded { s with table := s.table.put k (.ofLifetime now v ttl) } now

/-- The live entry of a key. An expired one is dropped. -/
def get (s : ByAge K V) (now : Nat) (k : K) : Option (Entry V) × ByAge K V :=
  match s.table.lookup? k with
  | none => (none, s)
  | some e =>
    if e.isExpired now then (none, { s with table := s.table.remove k }) else (some e, s)

/-- The live entry of a key as it stands in the store. -/
def peek (s : ByAge K V) (now : Nat) (k : K) : Option (Entry V) :=
  (s.table.lookup? k).filter fun e => !e.isExpired now

def remove (s : ByAge K V) (k : K) : Option V × ByAge K V :=
  ((s.table.lookup? k).map (·.value), { s with table := s.table.remove k })

/-- Drops the expired entries and counts them. -/
def purge (s : ByAge K V) (now : Nat) : Nat × ByAge K V :=
  (s.table.length - (s.table.live now).length, { s with table := s.table.live now })

/-- The live value of a key, or else the given one, which is then stored. -/
def getOrPut (s : ByAge K V) (now : Nat) (k : K) (v : V) (ttl : Nat) :
    (V × Bool) × ByAge K V :=
  match s.peek now k with
  | some e => ((e.value, false), s)
  | none => ((v, true), s.put now k v ttl)

end ByAge

end SocksChain.Store
