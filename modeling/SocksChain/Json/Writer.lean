import SocksChain.Json.Value
import SocksChain.Text.Decimal

/-!
Writing JSON without blanks. Quotes, backslashes and control characters are escaped, and nothing
else is.
-/

namespace SocksChain.Json

def hexDigits (n : Nat) : List Char := [Nat.digitChar (n / 16), Nat.digitChar (n % 16)]

def escaped (c : Char) : List Char :=
  if c = '"' then ['\\', '"']
  else if c = '\\' then ['\\', '\\']
  else if c = '\x08' then ['\\', 'b']
  else if c = '\x0c' then ['\\', 'f']
  else if c = '\n' then ['\\', 'n']
  else if c = '\r' then ['\\', 'r']
  else if c = '\t' then ['\\', 't']
  else if c.toNat < 0x20 then ['\\', 'u', '0', '0'] ++ hexDigits c.toNat
  else [c]

def renderText (s : Option String) : List Char :=
  '"' :: (s.getD "").toList.flatMap escaped ++ ['"']

/-- Numbers are written as integers; this is exact for those that have no exponent. -/
def Number.render (x : Number) : List Char :=
  (if x.negative then ['-'] else []) ++ Text.Decimal.render x.digits

mutual

def render : Json → List Char
  | null => "null".toList
  | bool true => "true".toList
  | bool false => "false".toList
  | number x => x.render
  | string s => renderText s
  | array items => '[' :: renderItems items ++ [']']
  | object members => '{' :: renderMembers members ++ ['}']

def renderItems : List Json → List Char
  | [] => []
  | [v] => render v
  | v :: rest => render v ++ ',' :: renderItems rest

def renderMembers : List (Option String × Json) → List Char
  | [] => []
  | [(k, v)] => renderText k ++ ':' :: render v
  | (k, v) :: rest => renderText k ++ ':' :: render v ++ ',' :: renderMembers rest

end

def write (v : Json) : String := String.ofList (render v)

end SocksChain.Json
