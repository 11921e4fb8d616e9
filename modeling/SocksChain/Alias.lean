import SocksChain.Endpoint

/-!
Aliases of destinations. The host of an alias is the hash of a destination's text, in decimal,
followed by a suffix; a host is an alias exactly if such a number stands in front of the suffix.
-/

namespace SocksChain.Alias

/-- What stands in front of a suffix. -/
def front? (suffix s : List Char) : Option (List Char) :=
  if suffix.isSuffixOf s then some (s.take (s.length - suffix.length)) else none

def host (suffix : String) (hash : UInt64) : String :=
  String.ofList (Text.Decimal.render hash.toNat ++ suffix.toList)

def hash? (suffix host : String) : Option UInt64 :=
  (front? suffix.toList host.toList).bind fun digits =>
    (Text.Decimal.read? (UInt64.size - 1) digits).map UInt64.ofNat

theorem front?_append (suffix s : List Char) : front? suffix (s ++ suffix) = some s := by
  simp [front?]

theorem eq_append_of_front? {suffix s p : List Char} (h : front? suffix s = some p) :
    s = p ++ suffix := by
  unfold front? at h
  split at h
  · rename_i hs
    obtain ⟨q, rfl⟩ := List.isSuffixOf_iff_suffix.mp hs
    cases h
    simp
  · cases h

end SocksChain.Alias
