import SocksChain.Text.Extending
import SocksChain.Text.Invisible

/-!
A text between quotation marks, so that it can be told where it starts and ends and what is in it.
Quotes and backslashes are escaped, and so is every character that could not be told from the
picture: what shows nothing of its own, and what extends the character before it.
-/

namespace SocksChain.Text.Quoted

def escaped (c : Char) : List Char :=
  if c = '"' then ['\\', '"']
  else if c = '\\' then ['\\', '\\']
  else if c = '\t' then ['\\', 't']
  else if c = '\n' then ['\\', 'n']
  else if c = '\r' then ['\\', 'r']
  else if c.toNat = 0 then ['\\', '0']
  else if isExtending c || isInvisible c then
    ['\\', 'u', '\x7b'] ++ Nat.toDigits 16 c.toNat ++ ['\x7d']
  else [c]

def encode (s : String) : String := String.ofList ('"' :: s.toList.flatMap escaped ++ ['"'])

end SocksChain.Text.Quoted
