import SocksChain.Json.Number

/-!
JSON values as they stand in a text. A text that holds half of a surrogate pair has no string; it
may stand where nobody reads it.
-/

namespace SocksChain

inductive Json where
  | null
  | bool (b : Bool)
  | number (x : Json.Number)
  | string (s : Option String)
  | array (items : List Json)
  | object (members : List (Option String × Json))

namespace Json

def ofText (s : String) : Json := string (some s)

def ofNat (n : Nat) : Json := number { digits := n }

def ofMembers (l : List (String × Json)) : Json := object (l.map fun (k, v) => (some k, v))

def ofOption {α : Type} (f : α → Json) : Option α → Json
  | some a => f a
  | none => null

mutual

/-- Whether a value can be kept although nobody asks for it: all its text is text, its numbers
are finite, and it has at most `depth` containers inside one another. -/
def retains (depth : Nat) : Json → Bool
  | null => true
  | bool _ => true
  | number x => x.isFinite
  | string s => s.isSome
  | array items => 0 < depth && retainsItems (depth - 1) items
  | object members => 0 < depth && retainsMembers (depth - 1) members

def retainsItems (depth : Nat) : List Json → Bool
  | [] => true
  | v :: rest => retains depth v && retainsItems depth rest

def retainsMembers (depth : Nat) : List (Option String × Json) → Bool
  | [] => true
  | (k, v) :: rest => k.isSome && retains depth v && retainsMembers depth rest

end

end Json

end SocksChain
