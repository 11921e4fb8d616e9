import SocksChain.Bytes

/-!
A supply of random bytes, taken from in the order of use. A supply that has run out gives zeros, so
that a draw never fails and always has the length that was asked for.
-/

namespace SocksChain.Cipher

structure Entropy where
  supply : Bytes := []

namespace Entropy

def draw (e : Entropy) (n : Nat) : Bytes :=
  e.supply.take n ++ Bytes.zeros (n - e.supply.length)

def after (e : Entropy) (n : Nat) : Entropy := ⟨e.supply.drop n⟩

@[simp] theorem length_draw (e : Entropy) (n : Nat) : (e.draw n).length = n := by
  simp only [draw, List.length_append, List.length_take, Bytes.length_zeros]
  omega

end Entropy

end SocksChain.Cipher
