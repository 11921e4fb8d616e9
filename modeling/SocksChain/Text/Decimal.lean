/-!
Unsigned decimal numbers as text. A reader takes an optional plus sign, then one or more ASCII
digits, leading zeros among them, and refuses a value over its bound. Printing gives the digits
without leading zeros.
-/

namespace SocksChain.Text.Decimal

def digit? (c : Char) : Option Nat :=
  if '0' ≤ c ∧ c ≤ '9' then some (c.toNat - '0'.toNat) else none

/-- The value of a text of digits alone, which follow the value `acc`. -/
def value? (acc : Nat) : List Char → Option Nat
  | [] => some acc
  | c :: rest => (digit? c).bind fun d => value? (acc * 10 + d) rest

def dropPlus : List Char → List Char
  | '+' :: rest => rest
  | s => s

def read? (bound : Nat) (s : List Char) : Option Nat :=
  match dropPlus s with
  | [] => none
  | digits => (value? 0 digits).filter (· ≤ bound)

def render (n : Nat) : List Char := Nat.toDigits 10 n

theorem le_of_read? {bound n : Nat} {s : List Char} (h : read? bound s = some n) : n ≤ bound := by
  unfold read? at h
  split at h
  · cases h
  · simpa using (Option.filter_eq_some_iff.mp h).2

end SocksChain.Text.Decimal
