import SocksChain.Bytes

/-!
Bytes as hexadecimal digits, two for each byte and the high one first. Writing is in lower case and
reading takes both cases.
-/

namespace SocksChain.Text.Hex

def digit? (c : Char) : Option Nat :=
  if '0' ≤ c ∧ c ≤ '9' then some (c.toNat - '0'.toNat)
  else if 'a' ≤ c ∧ c ≤ 'f' then some (c.toNat - 'a'.toNat + 10)
  else if 'A' ≤ c ∧ c ≤ 'F' then some (c.toNat - 'A'.toNat + 10)
  else none

/-- The two digits of a byte. -/
def digits (b : UInt8) : List Char :=
  [Nat.digitChar (b.toNat / 16), Nat.digitChar (b.toNat % 16)]

def write (b : Bytes) : String := String.ofList (b.flatMap digits)

/-- Refuses a digit without its pair. -/
def read? : List Char → Option Bytes
  | [] => some []
  | [_] => none
  | h :: l :: rest => do
    return UInt8.ofNat ((← digit? h) * 16 + (← digit? l)) :: (← read? rest)

theorem digit?_digitChar {n : Nat} (h : n < 16) : digit? (Nat.digitChar n) = some n := by
  have all : ∀ k : Fin 16, digit? (Nat.digitChar k) = some k.val := by decide
  exact all ⟨n, h⟩

end SocksChain.Text.Hex
