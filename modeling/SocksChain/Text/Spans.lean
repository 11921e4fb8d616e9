/-!
Classes of characters as tables: closed spans of code points, which ascend and do not touch.
-/

namespace SocksChain.Text.Spans

def contains (spans : List (Nat × Nat)) (n : Nat) : Bool :=
  spans.any fun (first, last) => first ≤ n && n ≤ last

end SocksChain.Text.Spans
