import SocksChain.Json.Value

/-!
Reading records from JSON. A record is an object, whose unknown members are passed over and whose
known ones stand there once, or an array of its fields in order.
-/

namespace SocksChain.Json

def text? : Json → Option String
  | string s => s
  | _ => none

def bool? : Json → Option Bool
  | bool b => some b
  | _ => none

def natural? (bound : Nat) : Json → Option Nat
  | number x => x.natural?.filter (· ≤ bound)
  | _ => none

def word? (v : Json) : Option UInt16 := (v.natural? 65535).map UInt16.ofNat

/-- A count or a time: up to 64 bits. -/
def count? (v : Json) : Option Nat := v.natural? (UInt64.size - 1)

/-- A value, or null for none. -/
def optional? {α : Type} (read : Json → Option α) : Json → Option (Option α)
  | null => some none
  | v => (read v).map some

def list? {α : Type} (read : Json → Option α) : Json → Option (List α)
  | array items => items.mapM read
  | _ => none

/-- A name, or an object that holds null under a name. -/
def choice? {α : Type} (ofName? : String → Option α) : Json → Option α
  | string (some name) => ofName? name
  | object [(some name, null)] => ofName? name
  | _ => none

abbrev Fields := List (String × Json)

/-- The known members of an object in which every key is text. -/
def known (names : List String) : List (Option String × Json) → Option Fields
  | [] => some []
  | (none, _) :: _ => none
  | (some k, v) :: rest =>
    (known names rest).map fun fields => if names.contains k then (k, v) :: fields else fields

/-- The fields of a record. An array may leave out fields at the end if all have a default. -/
def fields? (names : List String) (defaults : Bool) : Json → Option Fields
  | object members =>
    (known names members).filter fun fields => (fields.map (·.1)).Nodup
  | array items =>
    if names.length < items.length || (!defaults && items.length < names.length) then none
    else some (names.zip items)
  | _ => none

def Fields.need {α : Type} (f : Fields) (name : String) (read : Json → Option α) : Option α :=
  (f.lookup name).bind read

def Fields.get {α : Type} (f : Fields) (name : String) (default : α) (read : Json → Option α) :
    Option α :=
  match f.lookup name with
  | none => some default
  | some v => read v

end SocksChain.Json
