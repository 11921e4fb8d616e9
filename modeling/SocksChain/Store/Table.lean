/-!
Tables of entries with a deadline, the newest entry first and no key twice. The clock is an
argument: an entry stored at `now` with a lifetime `ttl` is expired from `now + ttl` on.
-/

namespace SocksChain.Store

structure Entry (V : Type) where
  value : V
  expires : Nat
deriving DecidableEq

namespace Entry

variable {V : Type}

def ofLifetime (now : Nat) (value : V) (ttl : Nat) : Entry V := ⟨value, now + ttl⟩

def isExpired (e : Entry V) (now : Nat) : Bool := e.expires ≤ now

def remaining (e : Entry V) (now : Nat) : Nat := e.expires - now

end Entry

/-- A store holds at least one entry, whatever it is asked to hold. -/
theorem max_one_pos (n : Nat) : 0 < max n 1 := by omega

abbrev Table (K V : Type) := List (K × Entry V)

namespace Table

variable {K V : Type}

/-- The entries that are not expired. -/
def live (t : Table K V) (now : Nat) : Table K V := t.filter fun p => !p.2.isExpired now

theorem length_live_le (t : Table K V) (now : Nat) : (t.live now).length ≤ t.length :=
  List.length_filter_le _ _

variable [DecidableEq K]

def lookup? (t : Table K V) (k : K) : Option (Entry V) :=
  (List.find? (fun p => decide (p.1 = k)) t).map (·.2)

def remove (t : Table K V) (k : K) : Table K V := t.filter fun p => p.1 ≠ k

/-- Puts an entry in front, in place of one that has the same key. -/
def put (t : Table K V) (k : K) (e : Entry V) : Table K V := (k, e) :: t.remove k

@[simp] theorem lookup?_put_self (t : Table K V) (k : K) (e : Entry V) :
    (t.put k e).lookup? k = some e := by
  simp [lookup?, put]

theorem lookup?_remove_of_ne (t : Table K V) {k l : K} (h : l ≠ k) :
    (t.remove k).lookup? l = t.lookup? l := by
  induction t with
  | nil => rfl
  | cons p t ih =>
    by_cases hp : p.1 = k
    · have hl : p.1 ≠ l := fun e => h (e.symm.trans hp)
      simpa [lookup?, remove, hp, h.symm] using ih
    · by_cases hl : p.1 = l
      · simp [lookup?, remove, hl, h]
      · simpa [lookup?, remove, hp, hl] using ih

end Table

end SocksChain.Store
