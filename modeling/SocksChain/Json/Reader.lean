import SocksChain.Json.Token

/-!
Reading JSON: a machine over tokens that keeps a stack of the containers still open, so that any
depth of nesting takes one pass over the text. A text is one value and nothing else.
-/

namespace SocksChain.Json

/-- A container that is still open, its latest part first. -/
inductive Frame where
  | array (items : List Json)
  | object (members : List (Option String × Json)) (key : Option String)

/-- What may come next. -/
inductive Expecting where
  | value
  /-- The first item of an array, or its end. -/
  | firstItem
  /-- The first key of an object, or its end. -/
  | firstKey
  | key (members : List (Option String × Json))
  | colon (members : List (Option String × Json)) (key : Option String)
  /-- A comma, or the end of the innermost container. -/
  | more
  | nothing (v : Json)

namespace Frame

/-- Puts a finished value into the innermost open container. -/
def close (v : Json) : List Frame → Expecting × List Frame
  | [] => (.nothing v, [])
  | array items :: st => (.more, array (v :: items) :: st)
  | object members key :: st => (.more, object ((key, v) :: members) key :: st)

/-- The first token of a value. -/
def start (st : List Frame) : Token → Option (Expecting × List Frame)
  | .null => some (close .null st)
  | .bool b => some (close (.bool b) st)
  | .number x => some (close (.number x) st)
  | .string s => some (close (.string s) st)
  | .openArray => some (.firstItem, st)
  | .openObject => some (.firstKey, st)
  | _ => none

def step : Expecting → List Frame → Token → Option (Expecting × List Frame)
  | .value, st, t => start st t
  | .firstItem, st, .closeArray => some (close (.array []) st)
  | .firstItem, st, t => start (array [] :: st) t
  | .firstKey, st, .closeObject => some (close (.object []) st)
  | .firstKey, st, .string k => some (.colon [] k, st)
  | .key members, st, .string k => some (.colon members k, st)
  | .colon members k, st, .colon => some (.value, object members k :: st)
  | .more, array items :: st, .comma => some (.value, array items :: st)
  | .more, array items :: st, .closeArray => some (close (.array items.reverse) st)
  | .more, object members _ :: st, .comma => some (.key members, st)
  | .more, object members _ :: st, .closeObject => some (close (.object members.reverse) st)
  | _, _, _ => none

def run : Expecting → List Frame → List Token → Option Json
  | .nothing v, _, [] => some v
  | _, _, [] => none
  | e, st, t :: rest =>
    match step e st t with
    | some (e, st) => run e st rest
    | none => none

end Frame

def parse? (s : List Char) : Option Json := (tokens s).bind (Frame.run .value [])

def read? (s : String) : Option Json := parse? s.toList

end SocksChain.Json
