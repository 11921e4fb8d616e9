/-!
How much a node reports.
-/

namespace SocksChain

inductive Verbosity where
  | error
  | warn
  | info
  | debug
  | trace
deriving DecidableEq

namespace Verbosity

def all : List Verbosity := [error, warn, info, debug, trace]

def name : Verbosity → String
  | error => "error"
  | warn => "warn"
  | info => "info"
  | debug => "debug"
  | trace => "trace"

def rank : Verbosity → Nat
  | error => 0
  | warn => 1
  | info => 2
  | debug => 3
  | trace => 4

def ofName? (s : String) : Option Verbosity := all.find? fun v => v.name = s

/-- A level in any case of its ASCII letters, or what is wrong with the text. -/
def ofText (s : String) : Except String Verbosity :=
  let lowered := String.ofList (s.toList.map Char.toLower)
  if lowered = "warning" then .ok warn
  else
    match ofName? lowered with
    | some v => .ok v
    | none => .error ("unknown log level: " ++ lowered)

end Verbosity

end SocksChain
