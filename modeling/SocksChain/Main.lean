import SocksChain.CommandLine
import SocksChain.Node

/-!
The program: reads its command line and its settings, and says where a node with these settings is
to listen, or why there can be none.
-/

namespace SocksChain.Program

/-- What a file holds, if it can be read. -/
def contents? (path : String) : IO (Option Bytes) := do
  try return some (← IO.FS.readBinFile path).toList
  catch _ => return none

end SocksChain.Program

open SocksChain

def main (words : List String) : IO UInt32 := do
  match CommandLine.parse words with
  | .error e =>
    (← if e.exitCode = 0 then IO.getStdout else IO.getStderr).putStrLn e.message
    return e.exitCode
  | .ok l =>
    let file ← match l.config with
      | some path => Program.contents? path
      | none => pure none
    match l.settings file >>= Node.ofSettings with
    | .ok n =>
      IO.println ("to listen on " ++ n.settings.front.endpoint.toText)
      return 0
    | .error f =>
      IO.eprintln ("tunnel exited: " ++ f.message)
      return 1
