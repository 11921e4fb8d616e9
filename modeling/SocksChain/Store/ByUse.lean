import SocksChain.Store.Table

/-!
A store that forgets what has not been used for longest. Its table is in the order of use, the
latest first; a new key in a full store takes the place of the last one.
-/

namespace SocksChain.Store

@[ext]
structure ByUse (K V : Type) where
  capacity : Nat
  table : Table K V := []
  capacity_pos : 0 < capacity

instance {K V : Type} [DecidableEq K] [DecidableEq V] : DecidableEq (ByUse K V) := fun _ _ =>
  decidable_of_decidable_of_iff ByUse.ext_iff.symm

namespace ByUse

variable {K V : Type} [DecidableEq K]

/-- An empty store for at least one entry. -/
def ofCapacity (n : Nat) : ByUse K V := { capacity := max n 1, capacity_pos := max_one_pos n }

def size (s : ByUse K V) : Nat := s.table.length

def put (s : ByUse K V) (now : Nat) (k : K) (v : V) (ttl : Nat) : ByUse K V :=
  { s with table := (s.table.put k (.ofLifetime now v ttl)).take s.capacity }

/-- The live entry of a key, which counts as a use. An expired one is dropped. -/
def get (s : ByUse K V) (now : Nat) (k : K) : Option (Entry V) × ByUse K V :=
  match s.table.lookup? k with
  | none => (none, s)
  | some e =>
    if e.isExpired now then (none, { s with table := s.table.remove k })
    else (some e, { s with table := s.table.put k e })

def remove (s : ByUse K V) (k : K) : Option V × ByUse K V :=
  ((s.table.lookup? k).map (·.value), { s with table := s.table.remove k })

/-- Drops the expired entries and counts them. -/
def purge (s : ByUse K V) (now : Nat) : Nat × ByUse K V :=
  (s.table.length - (s.table.live now).length, { s with table := s.table.live now })

theorem size_put_le (s : ByUse K V) (now : Nat) (k : K) (v : V) (ttl : Nat) :
    (s.put now k v ttl).size ≤ s.capacity := by
  simp only [size, put, List.length_take]
  omega

end ByUse

end SocksChain.Store
