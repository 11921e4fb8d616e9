import SocksChain.Failure

/-!
The reading half of a channel: what is still to arrive on it, in order. An attempt to read may find
the channel not ready; once everything has arrived on a closed channel it reads as the end of
input, which is an empty byte string.
-/

namespace SocksChain.Channel

inductive Attempt (α : Type) where
  | ready (value : α)
  | notReady
  | failed (error : IoError)

inductive Arrival where
  | chunk (b : Bytes)
  /-- The channel is not ready, once. -/
  | notReady
  /-- One read fails. -/
  | fails (error : IoError)

structure Source where
  arrivals : List Arrival := []
  /-- Whether nothing will ever follow the arrivals. -/
  closed : Bool := true

namespace Arrival

def bytes : Arrival → Bytes
  | chunk b => b
  | _ => []

/-- A measure of how many reads an arrival can answer. -/
def weight : Arrival → Nat
  | chunk b => b.length + 1
  | _ => 1

end Arrival

namespace Source

def weight (s : Source) : Nat := s.arrivals.foldr (fun a n => a.weight + n) 0

/-- The bytes that no read has returned yet. -/
def unread (s : Source) : Bytes := s.arrivals.flatMap Arrival.bytes

/-- A read returns at most one chunk, or as much of it as fits; the rest stays. -/
def read (s : Source) (limit : Nat) : Attempt Bytes × Source :=
  match s.arrivals with
  | [] => (if s.closed then .ready [] else .notReady, s)
  | .notReady :: rest => (.notReady, { s with arrivals := rest })
  | .fails e :: rest => (.failed e, { s with arrivals := rest })
  | .chunk b :: rest =>
    if (b.drop limit).isEmpty then (.ready b, { s with arrivals := rest })
    else (.ready (b.take limit), { s with arrivals := .chunk (b.drop limit) :: rest })

/-- Adds what has arrived; empty chunks do not count. -/
def arrive (s : Source) (a : List Arrival) : Source :=
  { s with arrivals := s.arrivals ++ a.filter fun
      | .chunk b => !b.isEmpty
      | _ => true }

theorem weight_read_le (s : Source) (limit : Nat) : (s.read limit).2.weight ≤ s.weight := by
  unfold read weight
  split
  · simp
  · rename_i h
    simp [h]
  · rename_i h
    simp [h]
  · rename_i h
    split
    · simp [h]
    · simp [h, Arrival.weight]

theorem weight_read_lt {s : Source} (limit : Nat) (h : s.arrivals ≠ []) (hl : 0 < limit) :
    (s.read limit).2.weight < s.weight := by
  unfold read weight
  split
  · contradiction
  · rename_i h
    simp [h, Arrival.weight]
  · rename_i h
    simp [h, Arrival.weight]
  · rename_i b rest h
    split
    · simp [h, Arrival.weight]
    · rename_i hd
      have : limit < b.length := by
        simpa using hd
      simp [h, Arrival.weight]
      omega

/-- What a read gives is taken off the measure. -/
theorem weight_add_length_le {s : Source} {limit : Nat} {b : Bytes}
    (h : (s.read limit).1 = .ready b) : (s.read limit).2.weight + b.length ≤ s.weight := by
  unfold read at h ⊢
  split at h <;> rename_i hs
  · split at h
    · cases h
      simp
    · cases h
  · cases h
  · cases h
  · split at h
    · cases h
      rename_i hd
      simp only [weight, hs, hd, if_true, List.foldr_cons, Arrival.weight]
      omega
    · cases h
      rename_i hd
      simp only [weight, hs, hd, List.foldr_cons, Arrival.weight,
        List.length_take, List.length_drop, Bool.false_eq_true, if_false]
      omega

end Source

end SocksChain.Channel
